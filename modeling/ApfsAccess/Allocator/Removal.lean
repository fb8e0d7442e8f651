import ApfsAccess.Allocator.FreeList

/-!
# Taking extents out of a free list

`Normalize` puts a list of valid extents in order and merges what meets.  `RemoveAllocatedExtents`
normalizes what it has to remove and then walks the two lists side by side: the removals that end
before a free extent are passed over for good, and the free extent is cut at the others.

* `normalize_spec` : a list of valid extents normalizes to one in order with the same bytes.
* `removeAllocatedExtents_spec` : what is left is in order and has lost the bytes removed, and
  these only.
* `removeAllocatedExtent_of_le` : an extent above the whole list takes nothing.
-/

namespace ApfsAccess
namespace Allocator

open Sorting

/-! ## Normalizing -/

theorem coalesceFrom_spec {previous : Option Extent} {extents : List Extent}
    (hprevious : ∀ extent ∈ previous, extent.Valid) (hvalid : ∀ extent ∈ extents, extent.Valid)
    (hordered : extents.Pairwise fun left right => left.physicalAddress ≤ right.physicalAddress)
    (hbefore : ∀ first ∈ previous, ∀ extent ∈ extents,
      first.physicalAddress ≤ extent.physicalAddress) :
    ∃ merged, coalesceFrom previous extents = some merged ∧ SortedValid merged ∧
      bytesOf merged = bytesOf previous.toList ∪ bytesOf extents ∧
      ∀ first ∈ previous, ∀ extent ∈ merged, first.physicalAddress ≤ extent.physicalAddress := by
  induction extents generalizing previous with
  | nil =>
    refine ⟨previous.toList, rfl, ?_, by simp, ?_⟩
    · cases previous with
      | none => exact ⟨by simp, List.Pairwise.nil⟩
      | some first => exact ⟨by simpa using hprevious first rfl, List.pairwise_singleton _ _⟩
    · rintro first ⟨⟩ extent hextent
      rw [Option.toList_some, List.mem_singleton] at hextent
      rw [hextent]
  | cons extent rest ih =>
    obtain ⟨hextent, hrest⟩ := List.forall_mem_cons.mp hvalid
    obtain ⟨hnext, hlater⟩ := List.pairwise_cons.mp hordered
    have haddress := hextent.address
    have hbytes := hextent.bytes
    rw [coalesceFrom, if_neg (by omega), hextent.rangeEnd]
    cases previous with
    | none =>
      obtain ⟨merged, hmerged, hsorted, hunion, -⟩ := @ih (some extent) (by simpa using hextent)
        hrest hlater (by rintro first ⟨⟩; exact hnext)
      refine ⟨merged, hmerged, hsorted, ?_, by simp⟩
      simpa using hunion
    | some first =>
      have hfirst : first.Valid := hprevious first rfl
      have hfirstBytes := hfirst.bytes
      have hle : first.physicalAddress ≤ extent.physicalAddress :=
        hbefore first rfl extent List.mem_cons_self
      have hfinish : first.finish = first.physicalAddress + first.bytes := rfl
      dsimp only
      rw [hfirst.rangeEnd]
      dsimp only
      by_cases htouch : extent.physicalAddress ≤ first.finish
      · rw [if_pos htouch]
        have hunion : first.range ∪ extent.range =
            Set.Ico first.physicalAddress (max first.finish extent.finish) :=
          ico_union_ico htouch hle
        by_cases hlonger : first.finish < extent.finish
        · rw [if_pos hlonger]
          have hgrown : (⟨first.physicalAddress, extent.finish - first.physicalAddress⟩ :
              Extent).range = first.range ∪ extent.range := by
            rw [hunion, max_eq_right hlonger.le]
            unfold Extent.range Extent.finish
            dsimp only
            rw [show first.physicalAddress + (extent.physicalAddress + extent.bytes -
              first.physicalAddress) = extent.physicalAddress + extent.bytes by omega]
          have hgrownValid : (⟨first.physicalAddress, extent.finish - first.physicalAddress⟩ :
              Extent).Valid := by
            have hbound := hextent.bound
            refine ⟨hfirst.address, ?_, ?_⟩
            · dsimp only
              omega
            · unfold Extent.finish at hbound hlonger ⊢
              dsimp only
              omega
          obtain ⟨merged, hmerged, hsorted, hbytesOf, hfrom⟩ :=
            @ih (some ⟨first.physicalAddress, extent.finish - first.physicalAddress⟩)
              (by rintro other ⟨⟩; exact hgrownValid) hrest hlater
              (by
                rintro other ⟨⟩ later hmem
                exact le_trans hle (hnext later hmem))
          refine ⟨merged, hmerged, hsorted, ?_, ?_⟩
          · rw [hbytesOf, Option.toList_some, Option.toList_some, bytesOf_cons, bytesOf_nil,
              Set.union_empty, hgrown, bytesOf_cons, bytesOf_cons, bytesOf_nil, Set.union_empty,
              Set.union_assoc]
          · rintro other ⟨⟩ later hmem
            exact hfrom _ rfl later hmem
        · rw [if_neg hlonger]
          have hinside : first.range ∪ extent.range = first.range := by
            rw [hunion, max_eq_left (by omega)]
            rfl
          obtain ⟨merged, hmerged, hsorted, hbytesOf, hfrom⟩ := @ih (some first)
            (by rintro other ⟨⟩; exact hfirst) hrest hlater
            (by
              rintro other ⟨⟩ later hmem
              exact le_trans hle (hnext later hmem))
          refine ⟨merged, hmerged, hsorted, ?_, hfrom⟩
          rw [hbytesOf, Option.toList_some, bytesOf_cons, bytesOf_nil, Set.union_empty,
            bytesOf_cons, ← Set.union_assoc, hinside]
      · rw [if_neg htouch]
        obtain ⟨merged, hmerged, hsorted, hbytesOf, hfrom⟩ := @ih (some extent)
          (by rintro other ⟨⟩; exact hextent) hrest hlater (by rintro other ⟨⟩; exact hnext)
        refine ⟨first :: merged, by rw [hmerged]; rfl, ?_, ?_, ?_⟩
        · refine sortedValid_cons.mpr ⟨hfirst, fun later hmem => ?_, hsorted⟩
          have hstart := hfrom extent rfl later hmem
          omega
        · rw [bytesOf_cons, hbytesOf]
          simp
        · rintro other ⟨⟩ later hmem
          rcases List.mem_cons.mp hmem with rfl | hmem
          · exact le_refl _
          · exact le_trans hle (hfrom extent rfl later hmem)

/-- **Valid extents normalize to a list in order with the same bytes.** -/
theorem normalize_spec {extents : List Extent} (hvalid : ∀ extent ∈ extents, extent.Valid) :
    ∃ merged, normalize extents = some merged ∧ SortedValid merged ∧
      bytesOf merged = bytesOf extents := by
  have hperm := sortBy_perm extents fun left right =>
    decide (left.physicalAddress < right.physicalAddress) ||
      (left.physicalAddress == right.physicalAddress && decide (left.bytes ≤ right.bytes))
  have hordered := @pairwise_sortBy Extent (fun left right =>
    decide (left.physicalAddress < right.physicalAddress) ||
      (left.physicalAddress == right.physicalAddress && decide (left.bytes ≤ right.bytes)))
    (by
      intro first second third
      simp only [Bool.or_eq_true, Bool.and_eq_true, decide_eq_true_eq, beq_iff_eq]
      omega)
    (by
      intro first second
      simp only [Bool.or_eq_true, Bool.and_eq_true, decide_eq_true_eq, beq_iff_eq]
      omega) extents
  obtain ⟨merged, hmerged, hsorted, hbytes, -⟩ := @coalesceFrom_spec none _ (by simp)
    (fun extent hextent => hvalid extent (hperm.subset hextent))
    (hordered.imp fun {left right} h => by
      simp only [Bool.or_eq_true, Bool.and_eq_true, decide_eq_true_eq, beq_iff_eq] at h
      omega)
    (by simp)
  refine ⟨merged, hmerged, hsorted, ?_⟩
  rw [hbytes, bytesOf_perm hperm]
  simp

/-! ## Taking out one extent -/

/-- What is left of a free extent once `[address, extentEnd)` is taken. -/
def leftOf (address extentEnd : ℕ) (free : Extent) : List Extent :=
  if free.finish ≤ address ∨ extentEnd ≤ free.physicalAddress then [free]
  else
    (if free.physicalAddress < address then
      [⟨free.physicalAddress, address - free.physicalAddress⟩] else []) ++
    (if extentEnd < free.finish then [⟨extentEnd, free.finish - extentEnd⟩] else [])

/-- `ExtentAllocator::RemoveAllocatedExtent`: the answer and the list. -/
def removeAllocatedExtent (freeExtents : List Extent) (extent : Extent) : Bool × List Extent :=
  match rangeEnd extent.physicalAddress extent.bytes with
  | none => (false, freeExtents)
  | some extentEnd =>
    match (if isSortedAndValid freeExtents then some freeExtents else normalize freeExtents) with
    | none => (false, freeExtents)
    | some sorted =>
      if sorted.any (fun free => (rangeEnd free.physicalAddress free.bytes).isNone) then
        (false, sorted)
      else (true, sorted.flatMap (leftOf extent.physicalAddress extentEnd))

/-- An extent above the list takes nothing from it. -/
theorem removeAllocatedExtent_of_le {freeExtents : List Extent} {extent : Extent}
    (hsorted : SortedValid freeExtents) (hvalid : extent.Valid)
    (habove : ∀ free ∈ freeExtents, free.finish ≤ extent.physicalAddress) :
    removeAllocatedExtent freeExtents extent = (true, freeExtents) := by
  have hends : freeExtents.any
      (fun free => (rangeEnd free.physicalAddress free.bytes).isNone) = false := by
    refine List.any_eq_false.mpr fun free hfree => ?_
    rw [(hsorted.valid free hfree).rangeEnd]
    simp
  have hkept : freeExtents.flatMap (leftOf extent.physicalAddress extent.finish) =
      freeExtents.flatMap fun free => [free] := by
    refine List.flatMap_congr fun free hfree => ?_
    unfold leftOf
    rw [if_pos (Or.inl (habove free hfree))]
  unfold removeAllocatedExtent
  rw [hvalid.rangeEnd]
  dsimp only
  rw [if_pos (isSortedAndValid_iff.mpr hsorted)]
  dsimp only
  rw [hends, if_neg (by simp), hkept, List.flatMap_singleton']

/-! ## Taking out several -/

/-- The rest of a free extent from `cursor` on, when there is any. -/
def remainder (cursor freeEnd : ℕ) : List Extent :=
  if cursor < freeEnd then [⟨cursor, freeEnd - cursor⟩] else []

/-- The inner loop of `RemoveAllocatedExtents`: a free extent is cut at the removals. -/
def cutFrom : ℕ → ℕ → List Extent → Option (List Extent)
  | cursor, freeEnd, [] => some (remainder cursor freeEnd)
  | cursor, freeEnd, removal :: rest =>
    match rangeEnd removal.physicalAddress removal.bytes with
    | none => none
    | some removalEnd =>
      if freeEnd ≤ removal.physicalAddress then some (remainder cursor freeEnd)
      else if freeEnd ≤ max cursor (min removalEnd freeEnd) then
        some (remainder cursor removal.physicalAddress)
      else
        (cutFrom (max cursor (min removalEnd freeEnd)) freeEnd rest).map
          (remainder cursor removal.physicalAddress ++ ·)

/-- The loop that passes over the removals that end before the free extent. -/
def skipRemovals (address : ℕ) : List Extent → Option (List Extent)
  | [] => some []
  | removal :: rest =>
    match rangeEnd removal.physicalAddress removal.bytes with
    | none => none
    | some removalEnd => if address < removalEnd then some (removal :: rest)
      else skipRemovals address rest

/-- The outer loop of `RemoveAllocatedExtents`. -/
def removeFrom : List Extent → List Extent → Option (List Extent)
  | _, [] => some []
  | removals, free :: rest =>
    match rangeEnd free.physicalAddress free.bytes with
    | none => none
    | some freeEnd =>
      match skipRemovals free.physicalAddress removals with
      | none => none
      | some removals =>
        match cutFrom free.physicalAddress freeEnd removals with
        | none => none
        | some pieces => (removeFrom removals rest).map (pieces ++ ·)

/-- `ExtentAllocator::RemoveAllocatedExtents`: the answer and the list. -/
def removeAllocatedExtents (freeExtents extents : List Extent) : Bool × List Extent :=
  if freeExtents.isEmpty || extents.isEmpty then (true, freeExtents)
  else
    match (if isSortedAndValid freeExtents then some freeExtents else normalize freeExtents) with
    | none => (false, freeExtents)
    | some sorted =>
      match normalize extents with
      | none => (false, sorted)
      | some removals =>
        if removals.isEmpty then (true, sorted)
        else
          match removeFrom removals sorted with
          | none => (false, sorted)
          | some adjusted => (isSortedAndValid adjusted, adjusted)

theorem remainder_spec {cursor freeEnd : ℕ} (hpos : 0 < cursor) (hbound : freeEnd ≤ uint64Max) :
    SortedValid (remainder cursor freeEnd) ∧
      bytesOf (remainder cursor freeEnd) = Set.Ico cursor freeEnd ∧
      ∀ piece ∈ remainder cursor freeEnd,
        cursor ≤ piece.physicalAddress ∧ piece.finish ≤ freeEnd := by
  unfold remainder
  split
  · rename_i hlt
    have hfinish : (⟨cursor, freeEnd - cursor⟩ : Extent).finish = freeEnd := by
      unfold Extent.finish
      dsimp only
      omega
    refine ⟨sortedValid_cons.mpr ⟨⟨hpos, by dsimp only; omega, by omega⟩, by simp,
      ⟨by simp, List.Pairwise.nil⟩⟩, ?_, ?_⟩
    · rw [bytesOf_cons, bytesOf_nil, Set.union_empty]
      unfold Extent.range
      rw [hfinish]
    · intro piece hpiece
      rw [List.mem_singleton.mp hpiece]
      exact ⟨le_refl _, hfinish.le⟩
  · rename_i hge
    refine ⟨⟨by simp, List.Pairwise.nil⟩, ?_, by simp⟩
    rw [bytesOf_nil, Set.Ico_eq_empty hge]

/-- The bytes of extents that start at or after an address are there too. -/
theorem disjoint_ico_bytesOf {start fin : ℕ} {extents : List Extent}
    (h : ∀ extent ∈ extents, fin ≤ extent.physicalAddress) :
    Disjoint (Set.Ico start fin) (bytesOf extents) := by
  rw [Set.disjoint_left]
  rintro byte hbyte ⟨extent, hextent, hinside⟩
  have hstart := h extent hextent
  have hlow := hinside.1
  have hhigh := hbyte.2
  omega

theorem cutFrom_spec {cursor freeEnd : ℕ} {removals : List Extent}
    (hsorted : SortedValid removals) (hpos : 0 < cursor) (hbound : freeEnd ≤ uint64Max) :
    ∃ pieces, cutFrom cursor freeEnd removals = some pieces ∧ SortedValid pieces ∧
      bytesOf pieces = Set.Ico cursor freeEnd \ bytesOf removals ∧
      ∀ piece ∈ pieces, cursor ≤ piece.physicalAddress ∧ piece.finish ≤ freeEnd := by
  induction removals generalizing cursor with
  | nil =>
    obtain ⟨hpieces, hbytes, hinside⟩ := remainder_spec hpos hbound
    refine ⟨_, rfl, hpieces, ?_, hinside⟩
    rw [hbytes, bytesOf_nil, Set.sdiff_empty]
  | cons removal rest ih =>
    obtain ⟨hvalid, hgap, hrest⟩ := sortedValid_cons.mp hsorted
    have hremoval := hvalid.bytes
    have hfinish : removal.finish = removal.physicalAddress + removal.bytes := rfl
    have hlater : ∀ extent ∈ rest, removal.finish ≤ extent.physicalAddress := fun extent hmem =>
      (hgap extent hmem).le
    have hrestFrom : ∀ byte ∈ bytesOf rest, removal.finish ≤ byte := by
      rintro byte ⟨extent, hmem, hinside⟩
      exact le_trans (hlater extent hmem) hinside.1
    rw [cutFrom, hvalid.rangeEnd]
    dsimp only
    by_cases hafter : freeEnd ≤ removal.physicalAddress
    · -- the removals lie past the free extent
      rw [if_pos hafter]
      obtain ⟨hpieces, hbytes, hinside⟩ := @remainder_spec cursor freeEnd hpos hbound
      refine ⟨_, rfl, hpieces, ?_, hinside⟩
      have hdisjoint : Disjoint (Set.Ico cursor freeEnd) (bytesOf (removal :: rest)) := by
        refine disjoint_ico_bytesOf (List.forall_mem_cons.mpr ⟨hafter, fun extent hmem => ?_⟩)
        have := hlater extent hmem
        omega
      rw [hbytes, hdisjoint.sdiff_eq_left]
    · rw [if_neg hafter]
      obtain ⟨hpiece, hpieceBytes, hpieceInside⟩ :=
        @remainder_spec cursor removal.physicalAddress hpos (by omega)
      by_cases hdone : freeEnd ≤ max cursor (min removal.finish freeEnd)
      · rw [if_pos hdone]
        refine ⟨_, rfl, hpiece, ?_, fun piece hmem => ?_⟩
        · rw [hpieceBytes, bytesOf_cons]
          ext byte
          have hbyte := hrestFrom byte
          simp only [Set.mem_sdiff, Set.mem_union, Set.mem_Ico, Extent.range]
          by_cases hmem : byte ∈ bytesOf rest
          · have := hbyte hmem
            simp only [hmem, or_true, not_true_eq_false, and_false, iff_false]
            omega
          · simp only [hmem, or_false]
            omega
        · obtain ⟨hlow, hhigh⟩ := hpieceInside piece hmem
          exact ⟨hlow, by omega⟩
      · rw [if_neg hdone]
        obtain ⟨pieces, hpieces, hpiecesSorted, hpiecesBytes, hpiecesInside⟩ :=
          @ih (max cursor (min removal.finish freeEnd)) hrest (by omega)
        refine ⟨_, by rw [hpieces]; rfl, ?_, ?_, ?_⟩
        · refine sortedValid_append.mpr ⟨hpiece, hpiecesSorted, fun piece hmem other hother => ?_⟩
          obtain ⟨-, hhigh⟩ := hpieceInside piece hmem
          obtain ⟨hlow, -⟩ := hpiecesInside other hother
          omega
        · rw [bytesOf_append, hpieceBytes, hpiecesBytes, bytesOf_cons]
          ext byte
          have hbyte := hrestFrom byte
          simp only [Set.mem_sdiff, Set.mem_union, Set.mem_Ico, Extent.range]
          by_cases hmem : byte ∈ bytesOf rest
          · have := hbyte hmem
            simp only [hmem, or_true, not_true_eq_false, and_false, or_false, iff_false]
            omega
          · simp only [hmem, or_false, not_false_eq_true, and_true]
            omega
        · intro piece hmem
          rcases List.mem_append.mp hmem with hmem | hmem
          · obtain ⟨hlow, hhigh⟩ := hpieceInside piece hmem
            exact ⟨hlow, by omega⟩
          · obtain ⟨hlow, hhigh⟩ := hpiecesInside piece hmem
            exact ⟨by omega, hhigh⟩

/-- The removals passed over lie below the free extent. -/
theorem skipRemovals_spec {address : ℕ} {removals : List Extent} (hsorted : SortedValid removals) :
    ∃ left, skipRemovals address removals = some left ∧ SortedValid left ∧
      bytesOf left ⊆ bytesOf removals ∧
      ∀ byte ∈ bytesOf removals, address ≤ byte → byte ∈ bytesOf left := by
  induction removals with
  | nil => exact ⟨[], rfl, hsorted, subset_refl _, fun byte hbyte _ => hbyte⟩
  | cons removal rest ih =>
    obtain ⟨hvalid, hgap, hrest⟩ := sortedValid_cons.mp hsorted
    rw [skipRemovals, hvalid.rangeEnd]
    dsimp only
    split
    · exact ⟨_, rfl, hsorted, subset_refl _, fun byte hbyte _ => hbyte⟩
    · rename_i hends
      obtain ⟨left, hleft, hleftSorted, hsubset, hfrom⟩ := ih hrest
      refine ⟨left, hleft, hleftSorted, ?_, ?_⟩
      · rw [bytesOf_cons]
        exact hsubset.trans Set.subset_union_right
      · intro byte hbyte hle
        rw [bytesOf_cons] at hbyte
        rcases hbyte with hinside | hother
        · have := hinside.2
          omega
        · exact hfrom byte hother hle

theorem removeFrom_spec {removals freeExtents : List Extent} (hremovals : SortedValid removals)
    (hfree : SortedValid freeExtents) :
    ∃ adjusted, removeFrom removals freeExtents = some adjusted ∧ SortedValid adjusted ∧
      bytesOf adjusted = bytesOf freeExtents \ bytesOf removals ∧
      ∀ fin, (∀ free ∈ freeExtents, fin < free.physicalAddress) →
        ∀ piece ∈ adjusted, fin < piece.physicalAddress := by
  induction freeExtents generalizing removals with
  | nil => exact ⟨[], rfl, hfree, by simp, by simp⟩
  | cons free rest ih =>
    obtain ⟨hvalid, hgap, hrest⟩ := sortedValid_cons.mp hfree
    obtain ⟨left, hleft, hleftSorted, hsubset, hfrom⟩ :=
      @skipRemovals_spec free.physicalAddress removals hremovals
    obtain ⟨pieces, hpieces, hpiecesSorted, hpiecesBytes, hinside⟩ :=
      @cutFrom_spec free.physicalAddress free.finish left hleftSorted hvalid.address hvalid.bound
    obtain ⟨others, hothers, hothersSorted, hothersBytes, hothersFrom⟩ := @ih left hleftSorted hrest
    have hskipped : ∀ byte, free.physicalAddress ≤ byte →
        (byte ∈ bytesOf left ↔ byte ∈ bytesOf removals) := fun byte hle =>
      ⟨fun h => hsubset h, fun h => hfrom byte h hle⟩
    have hafter : ∀ byte ∈ bytesOf rest, free.physicalAddress ≤ byte := by
      rintro byte ⟨extent, hextent, hlow, -⟩
      have hnext := hgap extent hextent
      unfold Extent.finish at hnext
      omega
    refine ⟨pieces ++ others, ?_, ?_, ?_, ?_⟩
    · rw [removeFrom, hvalid.rangeEnd]
      dsimp only
      rw [hleft]
      dsimp only
      rw [hpieces]
      dsimp only
      rw [hothers]
      rfl
    · refine sortedValid_append.mpr ⟨hpiecesSorted, hothersSorted, fun piece hpiece other hother => ?_⟩
      exact lt_of_le_of_lt (hinside piece hpiece).2 (hothersFrom free.finish hgap other hother)
    · rw [bytesOf_append, hpiecesBytes, hothersBytes, bytesOf_cons, Set.union_sdiff_distrib]
      congr 1
      · ext byte
        exact and_congr_right fun hbyte => not_congr (hskipped byte hbyte.1)
      · ext byte
        exact and_congr_right fun hbyte => not_congr (hskipped byte (hafter byte hbyte))
    · intro fin hbefore piece hpiece
      have hfirst := hbefore free List.mem_cons_self
      rcases List.mem_append.mp hpiece with hpiece | hpiece
      · exact lt_of_lt_of_le hfirst (hinside piece hpiece).1
      · exact hothersFrom fin (fun other hother => hbefore other (List.mem_cons_of_mem _ hother))
          piece hpiece

/-- **Removing valid extents takes out their bytes, and no others.** -/
theorem removeAllocatedExtents_spec {freeExtents extents : List Extent}
    (hsorted : SortedValid freeExtents) (hvalid : ∀ extent ∈ extents, extent.Valid) :
    ∃ adjusted, removeAllocatedExtents freeExtents extents = (true, adjusted) ∧
      SortedValid adjusted ∧ bytesOf adjusted = bytesOf freeExtents \ bytesOf extents := by
  obtain ⟨removals, hremovals, hremovalsSorted, hremovalsBytes⟩ := normalize_spec hvalid
  obtain ⟨adjusted, hadjusted, hadjustedSorted, hadjustedBytes, -⟩ :=
    removeFrom_spec hremovalsSorted hsorted
  unfold removeAllocatedExtents
  split
  · rename_i hempty
    refine ⟨freeExtents, rfl, hsorted, ?_⟩
    rcases Bool.or_eq_true _ _ ▸ hempty with hempty | hempty
    · rw [List.isEmpty_iff.mp hempty, bytesOf_nil, Set.empty_sdiff]
    · rw [List.isEmpty_iff.mp hempty, bytesOf_nil, Set.sdiff_empty]
  · rw [if_pos (isSortedAndValid_iff.mpr hsorted)]
    dsimp only
    rw [hremovals]
    dsimp only
    split
    · rename_i hempty
      refine ⟨freeExtents, rfl, hsorted, ?_⟩
      rw [← hremovalsBytes, List.isEmpty_iff.mp hempty, bytesOf_nil, Set.sdiff_empty]
    · rw [hadjusted]
      dsimp only
      rw [isSortedAndValid_iff.mpr hadjustedSorted]
      refine ⟨adjusted, rfl, hadjustedSorted, ?_⟩
      rw [hadjustedBytes, hremovalsBytes]

end Allocator
end ApfsAccess
