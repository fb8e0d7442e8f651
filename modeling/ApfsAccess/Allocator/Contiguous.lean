import ApfsAccess.Allocator.Removal

/-!
# Contiguous allocation

`AllocateContiguousFromFree` takes the first free extent that has room.  When the start of that
extent is unavailable it asks the policy for a later address inside the same extent, and the free
extent then begins after the allocation: the bytes that were skipped leave the free list with the
bytes that were taken.  `AllocateContiguous` goes on to the tail, past every free extent.

* `allocateContiguousFromFree_bytes` : what leaves the free list is the part of one extent from
  its start to the end of the allocation.
* `Takes` : what any allocation does to the free list and the tail.
* `takes_allocateContiguous`, `rollbackContiguousAllocation_eq` : a contiguous allocation is one,
  and its undo record gives back the list and the tail.
-/

namespace ApfsAccess
namespace Allocator

/-- `AllocationPolicy`.  The functions stand for the function pointers with their context. -/
structure AllocationPolicy where
  containerBytes : Option ℕ := none
  overlapsUnavailable : Option (ℕ → ℕ → Bool) := none
  advancePastUnavailable : Option (ℕ → ℕ → Option ℕ) := none

/-- `FitsContainer`. -/
def fitsContainer (physicalAddress bytes : ℕ) (policy : AllocationPolicy) : Bool :=
  match rangeEnd physicalAddress bytes with
  | none => false
  | some fin => policy.containerBytes.all (fin ≤ ·)

/-- `OverlapsUnavailable`. -/
def overlapsUnavailable (physicalAddress bytes : ℕ) (policy : AllocationPolicy) : Bool :=
  policy.overlapsUnavailable.any fun overlaps => overlaps physicalAddress bytes

/-- `ContiguousAllocationUndo::Source`. -/
inductive Source
  | none
  | freeExtent
  | ephemeralTail
  deriving DecidableEq, Repr

/-- `ContiguousAllocationUndo`. -/
structure ContiguousAllocationUndo where
  source : Source := .none
  freeExtentIndex : ℕ := 0
  previousFreeExtent : Extent := ⟨0, 0⟩
  freeExtentErased : Bool := false
  previousNextEphemeralExtent : ℕ := 0
  previousEphemeralFreeExtents : List Extent := []
  deriving DecidableEq, Repr

/-- The address that an extent offers, by the checks of the loop of
`AllocateContiguousFromFree`. -/
def addressIn (bytes : ℕ) (policy : AllocationPolicy) (extent : Extent) : Option ℕ :=
  if extent.bytes < bytes then none
  else
    match rangeEnd extent.physicalAddress extent.bytes with
    | none => none
    | some extentEnd =>
      if uint64Max - bytes < extent.physicalAddress then none
      else if !fitsContainer extent.physicalAddress bytes policy then none
      else if overlapsUnavailable extent.physicalAddress bytes policy then
        match policy.advancePastUnavailable with
        | none => none
        | some advance =>
          match advance extent.physicalAddress bytes with
          | none => none
          | some advanced =>
            if advanced ≤ extent.physicalAddress ∨ extentEnd < advanced ∨
                uint64Max - bytes < advanced ∨ extentEnd < advanced + bytes ∨
                !fitsContainer advanced bytes policy ∨ overlapsUnavailable advanced bytes policy then
              none
            else some advanced
      else some extent.physicalAddress

/-- What `AllocateContiguousFromFree` leaves when it finds an address. -/
structure FreeAllocation where
  address : ℕ
  freeExtents : List Extent
  undo : ContiguousAllocationUndo
  deriving DecidableEq, Repr

/-- The loop of `AllocateContiguousFromFree`, at the extent with this index. -/
def allocateFrom (bytes : ℕ) (policy : AllocationPolicy) : ℕ → List Extent → Option FreeAllocation
  | _, [] => none
  | index, extent :: rest =>
    match addressIn bytes policy extent with
    | none =>
      (allocateFrom bytes policy (index + 1) rest).map fun allocation =>
        { allocation with freeExtents := extent :: allocation.freeExtents }
    | some address =>
      let left := extent.finish - (address + bytes)
      some {
        address
        freeExtents := if left = 0 then rest else ⟨address + bytes, left⟩ :: rest
        undo := {
          source := .freeExtent
          freeExtentIndex := index
          previousFreeExtent := extent
          freeExtentErased := left = 0 } }

/-- `ExtentAllocator::AllocateContiguousFromFree`. -/
def allocateContiguousFromFree (freeExtents : List Extent) (bytes : ℕ)
    (policy : AllocationPolicy) : Option FreeAllocation :=
  if bytes = 0 then none else allocateFrom bytes policy 0 freeExtents

/-- What `AllocateContiguous` leaves when it finds an address. -/
structure ContiguousAllocation extends FreeAllocation where
  nextEphemeralExtent : ℕ
  deriving DecidableEq, Repr

/-- The address past the tail that the policy allows. -/
def tailAddress (nextEphemeralExtent bytes : ℕ) (policy : AllocationPolicy) : Option ℕ :=
  if nextEphemeralExtent = 0 ∨ uint64Max - bytes < nextEphemeralExtent then none
  else
    let current :=
      if overlapsUnavailable nextEphemeralExtent bytes policy then
        match policy.advancePastUnavailable with
        | none => none
        | some advance =>
          match advance nextEphemeralExtent bytes with
          | none => none
          | some advanced =>
            if advanced ≤ nextEphemeralExtent then none
            else if advanced = 0 ∨ uint64Max - bytes < advanced then none
            else some advanced
      else some nextEphemeralExtent
    match current with
    | none => none
    | some current =>
      if !fitsContainer current bytes policy then none
      else if overlapsUnavailable current bytes policy then none
      else some current

/-- `ExtentAllocator::AllocateContiguous`; on failure the list and the tail stay. -/
def allocateContiguous (freeExtents : List Extent) (nextEphemeralExtent bytes : ℕ)
    (policy : AllocationPolicy) : Option ContiguousAllocation :=
  match allocateContiguousFromFree freeExtents bytes policy with
  | some fromFree => some { fromFree with nextEphemeralExtent }
  | none =>
    match tailAddress nextEphemeralExtent bytes policy with
    | none => none
    | some current =>
      match removeAllocatedExtent freeExtents ⟨current, bytes⟩ with
      | (false, _) => none
      | (true, left) => some {
          address := current
          freeExtents := left
          nextEphemeralExtent := current + bytes
          undo := {
            source := .ephemeralTail
            previousNextEphemeralExtent := nextEphemeralExtent
            previousEphemeralFreeExtents := freeExtents } }

/-- `ExtentAllocator::RollbackContiguousAllocation`: the answer, the list and the tail. -/
def rollbackContiguousAllocation (freeExtents : List Extent) (nextEphemeralExtent : ℕ)
    (undo : ContiguousAllocationUndo) : Bool × List Extent × ℕ :=
  match undo.source with
  | .freeExtent =>
    if undo.freeExtentErased then
      let restored := freeExtents.insertIdx (min undo.freeExtentIndex freeExtents.length)
        undo.previousFreeExtent
      (isSortedAndValid restored, restored, nextEphemeralExtent)
    else if undo.freeExtentIndex < freeExtents.length then
      let restored := freeExtents.set undo.freeExtentIndex undo.previousFreeExtent
      (isSortedAndValid restored, restored, nextEphemeralExtent)
    else (false, freeExtents, nextEphemeralExtent)
  | .ephemeralTail =>
    (isSortedAndValid undo.previousEphemeralFreeExtents, undo.previousEphemeralFreeExtents,
      undo.previousNextEphemeralExtent)
  | .none => (false, freeExtents, nextEphemeralExtent)

/-! ## From the free list -/

/-- What an extent offers. -/
theorem addressIn_spec {bytes address : ℕ} {policy : AllocationPolicy} {extent : Extent}
    (h : addressIn bytes policy extent = some address) :
    extent.physicalAddress ≤ address ∧ address + bytes ≤ extent.finish ∧
      overlapsUnavailable address bytes policy = false ∧
      (extent.physicalAddress < address ↔
        overlapsUnavailable extent.physicalAddress bytes policy = true) := by
  unfold addressIn at h
  split at h
  · cases h
  rename_i hroom
  split at h
  · cases h
  rename_i fin hend
  obtain ⟨-, rfl⟩ := rangeEnd_eq_some.mp hend
  split at h
  · cases h
  split at h
  · cases h
  split at h
  · rename_i hoverlaps
    split at h
    · cases h
    split at h
    · cases h
    split at h
    · cases h
    · rename_i hchecks
      cases h
      push Not at hchecks
      obtain ⟨hlater, -, -, hends, -, hclean⟩ := hchecks
      refine ⟨hlater.le, hends, by simpa using hclean, ?_⟩
      exact ⟨fun _ => hoverlaps, fun _ => hlater⟩
  · rename_i hclean
    cases h
    refine ⟨le_refl _, ?_, by simpa using hclean, ?_⟩
    · unfold Extent.finish
      omega
    · exact ⟨fun hlt => absurd hlt (lt_irrefl _), fun h => absurd h hclean⟩

/-- The allocation is made in one extent, and the others stay. -/
theorem allocateFrom_spec {bytes index : ℕ} {policy : AllocationPolicy} {freeExtents : List Extent}
    {allocation : FreeAllocation}
    (h : allocateFrom bytes policy index freeExtents = some allocation) :
    ∃ before extent rest, freeExtents = before ++ extent :: rest ∧
      addressIn bytes policy extent = some allocation.address ∧
      allocation.freeExtents =
        before ++ (remainder (allocation.address + bytes) extent.finish ++ rest) ∧
      allocation.undo = {
        source := .freeExtent
        freeExtentIndex := index + before.length
        previousFreeExtent := extent
        freeExtentErased := extent.finish - (allocation.address + bytes) = 0 } := by
  induction freeExtents generalizing index allocation with
  | nil => cases h
  | cons extent rest ih =>
    rw [allocateFrom] at h
    cases haddress : addressIn bytes policy extent with
    | none =>
      rw [haddress] at h
      obtain ⟨other, hother, rfl⟩ := Option.map_eq_some_iff.mp h
      obtain ⟨before, chosen, later, rfl, hchosen, hleft, hundo⟩ := ih hother
      refine ⟨extent :: before, chosen, later, rfl, hchosen, by simp [hleft], ?_⟩
      rw [List.length_cons, ← Nat.add_assoc, Nat.add_right_comm]
      exact hundo
    | some address =>
      rw [haddress] at h
      cases h
      refine ⟨[], extent, rest, rfl, haddress, ?_, rfl⟩
      dsimp only [remainder]
      rw [List.nil_append]
      by_cases hleft : extent.finish - (address + bytes) = 0
      · rw [if_pos hleft, if_neg (by omega), List.nil_append]
      · rw [if_neg hleft, if_pos (by omega), List.cons_append, List.nil_append]

/-- The other extents of a list in order keep clear of a part of one. -/
theorem SortedValid.others_disjoint {before rest : List Extent} {extent : Extent} {fin : ℕ}
    (hsorted : SortedValid (before ++ extent :: rest)) (hfin : fin ≤ extent.finish) :
    Disjoint (Set.Ico extent.physicalAddress fin) (bytesOf before ∪ bytesOf rest) := by
  obtain ⟨-, hrest, hgap⟩ := sortedValid_append.mp hsorted
  obtain ⟨-, hnext, -⟩ := sortedValid_cons.mp hrest
  rw [Set.disjoint_union_right]
  constructor
  · rw [Set.disjoint_left]
    rintro byte hbyte ⟨other, hother, hinside⟩
    have hbefore := hgap other hother extent List.mem_cons_self
    have hhigh := hinside.2
    have hlow := hbyte.1
    omega
  · refine disjoint_ico_bytesOf fun other hother => ?_
    have hafter := hnext other hother
    omega

/-- One extent of a list in order, cut to its part from `cursor` on. -/
theorem SortedValid.cut {before rest : List Extent} {extent : Extent} {cursor : ℕ}
    (hsorted : SortedValid (before ++ extent :: rest)) (hcursor : extent.physicalAddress ≤ cursor)
    (hfin : cursor ≤ extent.finish) :
    SortedValid (before ++ (remainder cursor extent.finish ++ rest)) ∧
      bytesOf (before ++ (remainder cursor extent.finish ++ rest)) =
        bytesOf (before ++ extent :: rest) \ Set.Ico extent.physicalAddress cursor := by
  have hdisjoint := hsorted.others_disjoint hfin
  obtain ⟨hbefore, hrest, hgap⟩ := sortedValid_append.mp hsorted
  obtain ⟨hvalid, hnext, hlater⟩ := sortedValid_cons.mp hrest
  have haddress := hvalid.address
  obtain ⟨hpiece, hpieceBytes, hinside⟩ :=
    @remainder_spec cursor extent.finish (by omega) hvalid.bound
  refine ⟨sortedValid_append.mpr ⟨hbefore, sortedValid_append.mpr ⟨hpiece, hlater, ?_⟩, ?_⟩, ?_⟩
  · intro piece hmem later hlaterMem
    exact lt_of_le_of_lt (hinside piece hmem).2 (hnext later hlaterMem)
  · intro earlier hearlier other hother
    rcases List.mem_append.mp hother with hother | hother
    · have hstart := (hinside other hother).1
      have hfirst := hgap earlier hearlier extent List.mem_cons_self
      omega
    · exact hgap earlier hearlier other (List.mem_cons_of_mem _ hother)
  · rw [bytesOf_append, bytesOf_append, bytesOf_append, bytesOf_cons, hpieceBytes]
    ext byte
    have hother : byte ∈ bytesOf before ∨ byte ∈ bytesOf rest →
        ¬ (extent.physicalAddress ≤ byte ∧ byte < cursor) := fun hmem hpart =>
      Set.disjoint_left.mp hdisjoint hpart hmem
    simp only [Set.mem_sdiff, Set.mem_union, Set.mem_Ico, Extent.range]
    by_cases hfirst : byte ∈ bytesOf before
    · simp only [hfirst, true_or, true_and]
      exact (iff_true_right (hother (Or.inl hfirst))).mpr trivial
    · by_cases hsecond : byte ∈ bytesOf rest
      · simp only [hsecond, or_true, true_and]
        exact (iff_true_right (hother (Or.inr hsecond))).mpr trivial
      · simp only [hfirst, hsecond, or_false, false_or]
        omega

/-- The extent that the allocation is made in, and what it leaves. -/
theorem allocateContiguousFromFree_cut {freeExtents : List Extent} {bytes : ℕ}
    {policy : AllocationPolicy} {allocation : FreeAllocation} (hsorted : SortedValid freeExtents)
    (h : allocateContiguousFromFree freeExtents bytes policy = some allocation) :
    ∃ extent ∈ freeExtents, 0 < bytes ∧
      addressIn bytes policy extent = some allocation.address ∧
      SortedValid allocation.freeExtents ∧
      bytesOf allocation.freeExtents = bytesOf freeExtents \
        Set.Ico extent.physicalAddress (allocation.address + bytes) := by
  unfold allocateContiguousFromFree at h
  split at h
  · cases h
  rename_i hbytes
  obtain ⟨before, extent, rest, rfl, haddress, hleft, -⟩ := allocateFrom_spec h
  obtain ⟨hstart, hend, -, -⟩ := addressIn_spec haddress
  obtain ⟨hleftSorted, hleftBytes⟩ :=
    @SortedValid.cut before rest extent (allocation.address + bytes) hsorted (by omega) hend
  refine ⟨extent, by simp, by omega, haddress, ?_, ?_⟩
  · rw [hleft]
    exact hleftSorted
  · rw [hleft, hleftBytes]

/-- **What a contiguous allocation takes out of the free list**: the part of one extent from its
start to the end of the allocation.  These are the allocated bytes alone exactly when the
allocation is at the start of the extent, which is when that start is available. -/
theorem allocateContiguousFromFree_bytes {freeExtents : List Extent} {bytes : ℕ}
    {policy : AllocationPolicy} {allocation : FreeAllocation}
    (hsorted : isSortedAndValid freeExtents = true)
    (h : allocateContiguousFromFree freeExtents bytes policy = some allocation) :
    ∃ extent ∈ freeExtents,
      Set.Ico allocation.address (allocation.address + bytes) ⊆ extent.range ∧
      bytesOf allocation.freeExtents = bytesOf freeExtents \
        Set.Ico extent.physicalAddress (allocation.address + bytes) ∧
      (bytesOf allocation.freeExtents = bytesOf freeExtents \
          Set.Ico allocation.address (allocation.address + bytes) ↔
        overlapsUnavailable extent.physicalAddress bytes policy = false) := by
  obtain ⟨extent, hextent, hbytes, haddress, -, hleft⟩ :=
    allocateContiguousFromFree_cut (isSortedAndValid_iff.mp hsorted) h
  obtain ⟨hstart, hend, -, hadvanced⟩ := addressIn_spec haddress
  refine ⟨extent, hextent, fun byte hbyte => ⟨by have := hbyte.1; omega,
    by have := hbyte.2; omega⟩, hleft, ?_⟩
  rw [← Bool.not_eq_true, ← hadvanced, not_lt]
  constructor
  · intro hsame
    by_contra hlater
    -- the first byte of the extent was skipped
    have hfree : extent.physicalAddress ∈ bytesOf freeExtents :=
      ⟨extent, hextent, le_refl _, by omega⟩
    have hin : extent.physicalAddress ∈ bytesOf freeExtents \
        Set.Ico allocation.address (allocation.address + bytes) :=
      ⟨hfree, fun hpart => by have := hpart.1; omega⟩
    rw [← hsame, hleft] at hin
    exact hin.2 ⟨le_refl _, by omega⟩
  · intro hle
    rw [hleft, le_antisymm hle hstart]

/-- An extent whose second block is unavailable: the first block leaves the free list although it
is not allocated. -/
theorem allocateContiguousFromFree_skips :
    let policy : AllocationPolicy := {
      overlapsUnavailable := some fun address bytes =>
        decide (address < 12288) && decide (8192 < address + bytes)
      advancePastUnavailable := some fun _ _ => some 12288 }
    isSortedAndValid [⟨4096, 32768⟩] = true ∧
      (allocateContiguousFromFree [⟨4096, 32768⟩] 8192 policy).map
          (fun allocation => (allocation.address, allocation.freeExtents)) =
        some (12288, [⟨20480, 16384⟩]) ∧
      bytesOf [⟨20480, 16384⟩] ≠ bytesOf [⟨4096, 32768⟩] \ Set.Ico 12288 (12288 + 8192) := by
  refine ⟨by decide, by decide, fun hsame => ?_⟩
  have hin : (4096 : ℕ) ∈ bytesOf [⟨4096, 32768⟩] \ Set.Ico 12288 (12288 + 8192) :=
    ⟨⟨_, List.mem_singleton_self _, le_refl _, by decide⟩, fun hpart => by
      have := hpart.1
      omega⟩
  rw [← hsame] at hin
  obtain ⟨extent, hextent, hlow, -⟩ := hin
  rw [List.mem_singleton.mp hextent] at hlow
  dsimp only at hlow
  omega

/-- An extent whose start is available. -/
theorem allocateContiguousFromFree_bytes_start :
    ∃ extent ∈ [(⟨4096, 32768⟩ : Extent)],
      Set.Ico 4096 (4096 + 8192) ⊆ extent.range ∧
      bytesOf [⟨12288, 24576⟩] = bytesOf [⟨4096, 32768⟩] \
        Set.Ico extent.physicalAddress (4096 + 8192) ∧
      (bytesOf [⟨12288, 24576⟩] = bytesOf [⟨4096, 32768⟩] \ Set.Ico 4096 (4096 + 8192) ↔
        overlapsUnavailable extent.physicalAddress 8192 {} = false) :=
  @allocateContiguousFromFree_bytes [⟨4096, 32768⟩] 8192 {}
    ⟨4096, [⟨12288, 24576⟩], ⟨.freeExtent, 0, ⟨4096, 32768⟩, false, 0, []⟩⟩ (by decide) (by decide)

/-! ## What an allocation does -/

/-- A free list and a tail that is past it. -/
structure Space where
  freeExtents : List Extent
  nextEphemeralExtent : ℕ
  sorted : SortedValid freeExtents
  below : ∀ extent ∈ freeExtents, extent.finish ≤ nextEphemeralExtent

theorem Space.bytesOf_lt (space : Space) {byte : ℕ} (h : byte ∈ bytesOf space.freeExtents) :
    byte < space.nextEphemeralExtent := by
  obtain ⟨extent, hextent, -, hhigh⟩ := h
  exact lt_of_lt_of_le hhigh (space.below extent hextent)

/-- **An allocation**: the bytes taken were free or past the tail, they are not free any more and
lie before the new tail, and nothing became free. -/
structure Takes (space : Space) (taken : Set ℕ) (after : Space) : Prop where
  left : bytesOf after.freeExtents ⊆ bytesOf space.freeExtents \ taken
  source : taken ⊆ bytesOf space.freeExtents ∪ Set.Ici space.nextEphemeralExtent
  grows : space.nextEphemeralExtent ≤ after.nextEphemeralExtent
  bound : taken ⊆ Set.Iio after.nextEphemeralExtent

/-- A list with fewer bytes stays before the tail. -/
theorem Space.below_of_subset (space : Space) {freeExtents : List Extent}
    (hvalid : ∀ extent ∈ freeExtents, extent.Valid)
    (h : bytesOf freeExtents ⊆ bytesOf space.freeExtents) :
    ∀ extent ∈ freeExtents, extent.finish ≤ space.nextEphemeralExtent := by
  intro extent hextent
  have hbytes := (hvalid extent hextent).bytes
  have hlast : extent.finish - 1 ∈ bytesOf freeExtents := by
    refine ⟨extent, hextent, ?_, ?_⟩
    · unfold Extent.finish
      omega
    · unfold Extent.finish
      omega
  have hlt := space.bytesOf_lt (h hlast)
  omega

theorem tailAddress_spec {nextEphemeralExtent bytes current : ℕ} {policy : AllocationPolicy}
    (h : tailAddress nextEphemeralExtent bytes policy = some current) :
    nextEphemeralExtent ≤ current ∧ (⟨current, bytes⟩ : Extent).Valid ∧
      overlapsUnavailable current bytes policy = false := by
  have hfits : ∀ {address}, ¬ (!fitsContainer address bytes policy) = true →
      (⟨address, bytes⟩ : Extent).Valid := by
    intro address hfits
    cases hend : rangeEnd address bytes with
    | none => simp [fitsContainer, hend] at hfits
    | some fin => exact (rangeEnd_eq_some.mp hend).1
  unfold tailAddress at h
  split at h
  · cases h
  dsimp only at h
  split at h
  · cases h
  rename_i chosen hchosen
  split at h
  · cases h
  split at h
  · cases h
  rename_i hfit hclean
  cases h
  refine ⟨?_, hfits hfit, by simpa using hclean⟩
  split at hchosen
  · split at hchosen
    · cases hchosen
    split at hchosen
    · cases hchosen
    split at hchosen
    · cases hchosen
    split at hchosen
    · cases hchosen
    · cases hchosen
      omega
  · cases hchosen
    exact le_refl _

/-- **A contiguous allocation takes the range it returns.** -/
theorem takes_allocateContiguous {space : Space} {bytes : ℕ} {policy : AllocationPolicy}
    {allocation : ContiguousAllocation}
    (h : allocateContiguous space.freeExtents space.nextEphemeralExtent bytes policy =
      some allocation) :
    ∃ after : Space, after.freeExtents = allocation.freeExtents ∧
      after.nextEphemeralExtent = allocation.nextEphemeralExtent ∧
      Takes space (Set.Ico allocation.address (allocation.address + bytes)) after := by
  unfold allocateContiguous at h
  split at h
  · rename_i fromFree hfree
    cases h
    obtain ⟨extent, hextent, -, haddress, hsorted, hleft⟩ :=
      allocateContiguousFromFree_cut space.sorted hfree
    obtain ⟨hstart, hend, -, -⟩ := addressIn_spec haddress
    have hsubset : bytesOf fromFree.freeExtents ⊆ bytesOf space.freeExtents := by
      rw [hleft]
      exact Set.sdiff_subset
    have hinside : Set.Ico fromFree.address (fromFree.address + bytes) ⊆
        bytesOf space.freeExtents := fun byte hbyte =>
      ⟨extent, hextent, le_trans hstart hbyte.1, lt_of_lt_of_le hbyte.2 hend⟩
    refine ⟨⟨fromFree.freeExtents, space.nextEphemeralExtent, hsorted,
      space.below_of_subset hsorted.valid hsubset⟩, rfl, rfl, ?_, ?_, le_refl _, ?_⟩
    · dsimp only
      rw [hleft]
      refine Set.sdiff_subset_sdiff_right fun byte hbyte => ⟨?_, hbyte.2⟩
      exact le_trans hstart hbyte.1
    · exact hinside.trans Set.subset_union_left
    · exact fun byte hbyte => space.bytesOf_lt (hinside hbyte)
  · split at h
    · cases h
    rename_i current hcurrent
    obtain ⟨hnext, hvalid, -⟩ := tailAddress_spec hcurrent
    rw [removeAllocatedExtent_of_le space.sorted hvalid
      (fun free hfree => le_trans (space.below free hfree) hnext)] at h
    cases h
    refine ⟨⟨space.freeExtents, current + bytes, space.sorted, fun extent hextent =>
      le_trans (space.below extent hextent) (by omega)⟩, rfl, rfl, ?_, ?_, ?_, ?_⟩
    · intro byte hbyte
      refine ⟨hbyte, fun htaken => ?_⟩
      have hlt := space.bytesOf_lt hbyte
      have hle := htaken.1
      dsimp only at hle
      omega
    · intro byte hbyte
      exact Or.inr (le_trans hnext hbyte.1)
    · dsimp only
      omega
    · exact fun byte hbyte => hbyte.2

theorem insertIdx_length_append {α : Type*} (before rest : List α) (x : α) :
    (before ++ rest).insertIdx before.length x = before ++ x :: rest := by
  induction before with
  | nil => rw [List.nil_append, List.length_nil, List.insertIdx_zero, List.nil_append]
  | cons first before ih =>
    rw [List.cons_append, List.length_cons, List.insertIdx_succ_cons, ih, List.cons_append]

/-- **The undo record of an allocation gives back the list and the tail.** -/
theorem rollbackContiguousAllocation_eq {space : Space} {bytes : ℕ} {policy : AllocationPolicy}
    {allocation : ContiguousAllocation}
    (h : allocateContiguous space.freeExtents space.nextEphemeralExtent bytes policy =
      some allocation) :
    rollbackContiguousAllocation allocation.freeExtents allocation.nextEphemeralExtent
      allocation.undo = (true, space.freeExtents, space.nextEphemeralExtent) := by
  have hsorted := isSortedAndValid_iff.mpr space.sorted
  unfold allocateContiguous at h
  split at h
  · rename_i fromFree hfree
    cases h
    unfold allocateContiguousFromFree at hfree
    split at hfree
    · cases hfree
    obtain ⟨before, extent, rest, hlist, haddress, hleft, hundo⟩ := allocateFrom_spec hfree
    obtain ⟨-, hend, -, -⟩ := addressIn_spec haddress
    rw [hlist] at hsorted
    unfold rollbackContiguousAllocation
    dsimp only
    rw [hundo, hleft, hlist]
    dsimp only
    rw [Nat.zero_add]
    by_cases hempty : extent.finish - (fromFree.address + bytes) = 0
    · have hgone : remainder (fromFree.address + bytes) extent.finish = [] := by
        unfold remainder
        rw [if_neg (by omega)]
      rw [if_pos (by simpa using hempty), hgone, List.nil_append,
        min_eq_left (by rw [List.length_append]; omega), insertIdx_length_append, hsorted]
    · have hkept : remainder (fromFree.address + bytes) extent.finish =
          [⟨fromFree.address + bytes, extent.finish - (fromFree.address + bytes)⟩] := by
        unfold remainder
        rw [if_pos (by omega)]
      rw [if_neg (by simpa using hempty), hkept, List.singleton_append,
        if_pos (by rw [List.length_append, List.length_cons]; omega),
        List.set_append_right _ _ (le_refl _), Nat.sub_self, List.set_cons_zero, hsorted]
  · split at h
    · cases h
    split at h
    · cases h
    · cases h
      unfold rollbackContiguousAllocation
      dsimp only
      rw [hsorted]

end Allocator
end ApfsAccess
