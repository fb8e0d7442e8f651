import ApfsAccess.Library.Sorting

/-!
# Lists of free extents

The extent allocator keeps the free space of a container as a list of extents.  A list that
`IsSortedAndValid` accepts is in order, its extents do not touch, and none of them is empty or
runs past the largest address.  This module has the operation that gives space back and its
undo; the bytes that a list stands for (`bytesOf`) are what they are compared with.

* `isSortedAndValid_iff` : the test accepts exactly the lists in order.
* `addFreeExtent_spec` : adding an extent adds its bytes, merging what touches, and the undo
  record gives the old list back.

The addresses are natural numbers, compared with the largest `uint64_t` wherever the source
compares.
-/

namespace ApfsAccess
namespace Allocator

open Sorting

/-- `ExtentAllocator::Extent`. -/
structure Extent where
  physicalAddress : ℕ
  bytes : ℕ
  deriving DecidableEq, Repr

/-- The largest value of `uint64_t`. -/
def uint64Max : ℕ := 2 ^ 64 - 1

/-- `RangeEnd`. -/
def rangeEnd (physicalAddress bytes : ℕ) : Option ℕ :=
  if physicalAddress = 0 ∨ bytes = 0 ∨ uint64Max - bytes < physicalAddress then none
  else some (physicalAddress + bytes)

/-- The end of an extent. -/
def Extent.finish (extent : Extent) : ℕ := extent.physicalAddress + extent.bytes

/-- The loop of `IsSortedAndValid`, with the end of the extent before. -/
def isSortedAndValidFrom : Option ℕ → List Extent → Bool
  | _, [] => true
  | previousEnd, extent :: rest =>
    match rangeEnd extent.physicalAddress extent.bytes with
    | none => false
    | some extentEnd =>
      if previousEnd.any (extent.physicalAddress ≤ ·) then false
      else isSortedAndValidFrom (some extentEnd) rest

/-- `IsSortedAndValid`. -/
def isSortedAndValid (extents : List Extent) : Bool := isSortedAndValidFrom none extents

/-! ## What a list stands for -/

/-- The bytes of an extent. -/
def Extent.range (extent : Extent) : Set ℕ := Set.Ico extent.physicalAddress extent.finish

/-- The bytes of a list of extents. -/
def bytesOf (extents : List Extent) : Set ℕ := {byte | ∃ extent ∈ extents, byte ∈ extent.range}

@[simp] theorem bytesOf_nil : bytesOf [] = ∅ := by
  ext byte
  simp [bytesOf]

@[simp] theorem bytesOf_cons (extent : Extent) (extents : List Extent) :
    bytesOf (extent :: extents) = extent.range ∪ bytesOf extents := by
  ext byte
  simp [bytesOf]

@[simp] theorem bytesOf_append (extents others : List Extent) :
    bytesOf (extents ++ others) = bytesOf extents ∪ bytesOf others := by
  ext byte
  simp [bytesOf, or_and_right, exists_or]

theorem bytesOf_perm {extents others : List Extent} (h : extents.Perm others) :
    bytesOf extents = bytesOf others := by
  ext byte
  simp only [bytesOf, Set.mem_ofPred_eq, h.mem_iff]

/-- An extent that `RangeEnd` accepts. -/
structure Extent.Valid (extent : Extent) : Prop where
  address : 0 < extent.physicalAddress
  bytes : 0 < extent.bytes
  bound : extent.finish ≤ uint64Max

theorem rangeEnd_eq_some {physicalAddress bytes fin : ℕ} :
    rangeEnd physicalAddress bytes = some fin ↔
      (⟨physicalAddress, bytes⟩ : Extent).Valid ∧ fin = physicalAddress + bytes := by
  unfold rangeEnd
  constructor
  · intro h
    split at h
    · cases h
    · rename_i hchecks
      cases h
      refine ⟨⟨by simp only; omega, by simp only; omega, ?_⟩, rfl⟩
      simp only [Extent.finish]
      omega
  · rintro ⟨⟨haddress, hbytes, hbound⟩, rfl⟩
    simp only [Extent.finish] at haddress hbytes hbound
    rw [if_neg (by omega)]

theorem Extent.Valid.rangeEnd {extent : Extent} (h : extent.Valid) :
    rangeEnd extent.physicalAddress extent.bytes = some extent.finish :=
  rangeEnd_eq_some.mpr ⟨h, rfl⟩

/-- **In order, valid, and with a gap after every extent.** -/
structure SortedValid (extents : List Extent) : Prop where
  valid : ∀ extent ∈ extents, extent.Valid
  apart : extents.Pairwise fun left right => left.finish < right.physicalAddress

theorem sortedValid_cons {extent : Extent} {extents : List Extent} :
    SortedValid (extent :: extents) ↔ extent.Valid ∧
      (∀ later ∈ extents, extent.finish < later.physicalAddress) ∧ SortedValid extents := by
  constructor
  · rintro ⟨hvalid, hapart⟩
    obtain ⟨hfirst, hrest⟩ := List.forall_mem_cons.mp hvalid
    obtain ⟨hbefore, hothers⟩ := List.pairwise_cons.mp hapart
    exact ⟨hfirst, hbefore, hrest, hothers⟩
  · rintro ⟨hfirst, hbefore, hrest⟩
    exact ⟨List.forall_mem_cons.mpr ⟨hfirst, hrest.valid⟩,
      List.pairwise_cons.mpr ⟨hbefore, hrest.apart⟩⟩

theorem sortedValid_append {extents others : List Extent} :
    SortedValid (extents ++ others) ↔ SortedValid extents ∧ SortedValid others ∧
      ∀ extent ∈ extents, ∀ other ∈ others, extent.finish < other.physicalAddress := by
  constructor
  · rintro ⟨hvalid, hapart⟩
    obtain ⟨hfirst, hsecond, hbetween⟩ := List.pairwise_append.mp hapart
    obtain ⟨hvalidFirst, hvalidSecond⟩ := List.forall_mem_append.mp hvalid
    exact ⟨⟨hvalidFirst, hfirst⟩, ⟨hvalidSecond, hsecond⟩, hbetween⟩
  · rintro ⟨hfirst, hsecond, hbetween⟩
    exact ⟨List.forall_mem_append.mpr ⟨hfirst.valid, hsecond.valid⟩,
      List.pairwise_append.mpr ⟨hfirst.apart, hsecond.apart, hbetween⟩⟩

theorem isSortedAndValidFrom_iff {previousEnd : Option ℕ} {extents : List Extent} :
    isSortedAndValidFrom previousEnd extents = true ↔ SortedValid extents ∧
      ∀ fin ∈ previousEnd, ∀ extent ∈ extents, fin < extent.physicalAddress := by
  induction extents generalizing previousEnd with
  | nil =>
    simp only [isSortedAndValidFrom, true_iff]
    exact ⟨⟨by simp, List.Pairwise.nil⟩, by simp⟩
  | cons extent rest ih =>
    rw [isSortedAndValidFrom, sortedValid_cons]
    cases hend : rangeEnd extent.physicalAddress extent.bytes with
    | none =>
      constructor
      · intro h
        cases h
      · rintro ⟨⟨hvalid, -⟩, -⟩
        rw [hvalid.rangeEnd] at hend
        cases hend
    | some fin =>
      obtain ⟨hvalid, rfl⟩ := rangeEnd_eq_some.mp hend
      dsimp only
      split
      · rename_i hbefore
        obtain ⟨previous, rfl, hle⟩ := (Option.any_eq_true _ _).mp hbefore
        constructor
        · intro h
          cases h
        · rintro ⟨-, hgap⟩
          have hlt := hgap previous rfl extent List.mem_cons_self
          simp only [decide_eq_true_eq] at hle
          omega
      · rename_i hbefore
        rw [ih]
        constructor
        · rintro ⟨hrest, hgap⟩
          refine ⟨⟨hvalid, hgap _ rfl, hrest⟩, ?_⟩
          intro previous hprevious other hother
          have hfirst : previous < extent.physicalAddress := by
            by_contra hle
            exact hbefore (by simp [Option.mem_def.mp hprevious]; omega)
          rcases List.mem_cons.mp hother with rfl | hlater
          · exact hfirst
          · have hnext := hgap _ rfl other hlater
            omega
        · rintro ⟨⟨-, hnext, hrest⟩, -⟩
          refine ⟨hrest, ?_⟩
          rintro previous ⟨⟩ other hother
          exact hnext other hother

theorem isSortedAndValid_iff {extents : List Extent} :
    isSortedAndValid extents = true ↔ SortedValid extents := by
  rw [isSortedAndValid, isSortedAndValidFrom_iff]
  simp

/-! ## Normalizing -/

/-- The loop of `CoalesceSorted`, with the last extent of `merged`. -/
def coalesceFrom : Option Extent → List Extent → Option (List Extent)
  | previous, [] => some previous.toList
  | previous, extent :: rest =>
    if extent.physicalAddress = 0 ∨ extent.bytes = 0 then coalesceFrom previous rest
    else
      match rangeEnd extent.physicalAddress extent.bytes with
      | none => none
      | some extentEnd =>
        match previous with
        | none => coalesceFrom (some extent) rest
        | some previous =>
          match rangeEnd previous.physicalAddress previous.bytes with
          | none => none
          | some previousEnd =>
            if extent.physicalAddress ≤ previousEnd then
              if previousEnd < extentEnd then
                coalesceFrom (some ⟨previous.physicalAddress,
                  extentEnd - previous.physicalAddress⟩) rest
              else coalesceFrom (some previous) rest
            else (coalesceFrom (some extent) rest).map (previous :: ·)

/-- `ExtentAllocator::Normalize`; `none` is false. -/
def normalize (extents : List Extent) : Option (List Extent) :=
  coalesceFrom none (sortBy extents fun left right =>
    decide (left.physicalAddress < right.physicalAddress) ||
      (left.physicalAddress == right.physicalAddress && decide (left.bytes ≤ right.bytes)))

/-! ## Adding an extent -/

/-- `AddFreeExtentUndo`. -/
structure AddFreeExtentUndo where
  valid : Bool := false
  eraseBegin : ℕ := 0
  erasedCount : ℕ := 0
  erasedExtents : List Extent := []
  insertedWithoutErasing : Bool := false
  deriving DecidableEq, Repr

/-- What one of the two merging loops leaves: the bounds of the merged extent, the extents that
are erased, and those that stay. -/
structure Merge where
  start : ℕ
  fin : ℕ
  erased : List Extent
  kept : List Extent

/-- The loop over the extents before the insertion, from the last one on. -/
def mergeBack : ℕ → ℕ → List Extent → Option Merge
  | start, fin, [] => some ⟨start, fin, [], []⟩
  | start, fin, previous :: earlier =>
    match rangeEnd previous.physicalAddress previous.bytes with
    | none => none
    | some previousEnd =>
      if previousEnd < start then some ⟨start, fin, [], previous :: earlier⟩
      else
        (mergeBack previous.physicalAddress (max fin previousEnd) earlier).map fun merge =>
          { merge with erased := merge.erased ++ [previous] }

/-- The loop over the extents after the insertion. -/
def mergeForward : ℕ → ℕ → List Extent → Option Merge
  | start, fin, [] => some ⟨start, fin, [], []⟩
  | start, fin, candidate :: later =>
    if fin < candidate.physicalAddress then some ⟨start, fin, [], candidate :: later⟩
    else
      match rangeEnd candidate.physicalAddress candidate.bytes with
      | none => none
      | some candidateEnd =>
        (mergeForward start (max fin candidateEnd) later).map fun merge =>
          { merge with erased := candidate :: merge.erased }

/-- The result of `AddFreeExtent`: its answer, the list and the undo record. -/
structure AddFreeExtentResult where
  done : Bool
  freeExtents : List Extent
  undo : AddFreeExtentUndo := {}

/-- `ExtentAllocator::AddFreeExtent`. -/
def addFreeExtent (freeExtents : List Extent) (extent : Extent) : AddFreeExtentResult :=
  match rangeEnd extent.physicalAddress extent.bytes with
  | none => ⟨false, freeExtents, {}⟩
  | some extentEnd =>
    if !isSortedAndValid freeExtents then
      match normalize (freeExtents ++ [extent]) with
      | none => ⟨false, freeExtents ++ [extent], {}⟩
      | some normalized => ⟨true, normalized, {}⟩
    else
      -- `std::lower_bound` on a list in order
      let before := freeExtents.takeWhile (·.physicalAddress < extent.physicalAddress)
      let after := freeExtents.dropWhile (·.physicalAddress < extent.physicalAddress)
      match mergeBack extent.physicalAddress extentEnd before.reverse with
      | none => ⟨false, freeExtents, {}⟩
      | some back =>
        match mergeForward back.start back.fin after with
        | none => ⟨false, freeExtents, {}⟩
        | some forward =>
          ⟨true, back.kept.reverse ++ ⟨forward.start, forward.fin - forward.start⟩ :: forward.kept, {
            valid := true
            eraseBegin := back.kept.length
            erasedCount := (back.erased ++ forward.erased).length
            erasedExtents := back.erased ++ forward.erased
            insertedWithoutErasing := (back.erased ++ forward.erased).isEmpty }⟩

/-- `ExtentAllocator::RollbackAddFreeExtent`. -/
def rollbackAddFreeExtent (freeExtents : List Extent) (undo : AddFreeExtentUndo) :
    Bool × List Extent :=
  if !undo.valid then (false, freeExtents)
  else if freeExtents.length ≤ undo.eraseBegin then (false, freeExtents)
  else
    let restored := (freeExtents.eraseIdx undo.eraseBegin).take undo.eraseBegin ++
      undo.erasedExtents ++ (freeExtents.eraseIdx undo.eraseBegin).drop undo.eraseBegin
    (isSortedAndValid restored, restored)

/-! ### The merging loops -/

/-- Two ranges that touch or meet. -/
theorem ico_union_ico {start mid fin other : ℕ} (hmid : mid ≤ fin) (hstart : start ≤ mid) :
    Set.Ico start fin ∪ Set.Ico mid other = Set.Ico start (max fin other) := by
  ext byte
  simp only [Set.mem_union, Set.mem_Ico]
  omega

theorem mergeBack_spec {start fin : ℕ} {earlier : List Extent}
    (hsorted : SortedValid earlier.reverse) (hstart : start < fin) (hfin : fin ≤ uint64Max)
    (hpos : 0 < start) (hbefore : ∀ extent ∈ earlier, extent.physicalAddress < start) :
    ∃ merge, mergeBack start fin earlier = some merge ∧
      merge.kept.reverse ++ merge.erased = earlier.reverse ∧
      merge.start ≤ start ∧ fin ≤ merge.fin ∧ 0 < merge.start ∧ merge.fin ≤ uint64Max ∧
      bytesOf merge.erased ∪ Set.Ico start fin = Set.Ico merge.start merge.fin ∧
      ∀ extent ∈ merge.kept, extent.finish < merge.start := by
  induction earlier generalizing start fin with
  | nil =>
    refine ⟨⟨start, fin, [], []⟩, rfl, rfl, le_refl _, le_refl _, hpos, hfin, ?_, by simp⟩
    rw [bytesOf_nil, Set.empty_union]
  | cons previous earlier ih =>
    rw [List.reverse_cons, sortedValid_append] at hsorted
    obtain ⟨hearlier, hlast, hgap⟩ := hsorted
    obtain ⟨hvalid, -, -⟩ := sortedValid_cons.mp hlast
    have hprevious := hbefore previous List.mem_cons_self
    rw [mergeBack, hvalid.rangeEnd]
    dsimp only
    by_cases hapart : previous.finish < start
    · rw [if_pos hapart]
      refine ⟨_, rfl, by simp, le_refl _, le_refl _, hpos, hfin, ?_, ?_⟩
      · rw [bytesOf_nil, Set.empty_union]
      · intro extent hextent
        rcases List.mem_cons.mp hextent with rfl | hother
        · exact hapart
        · have hfirst := hgap extent (List.mem_reverse.mpr hother) previous (by simp)
          dsimp only at hprevious ⊢
          omega
    · rw [if_neg hapart]
      have hbound := hvalid.bound
      obtain ⟨merge, hmerge, hlist, hle, hge, hmergePos, hmergeFin, hbytes, hkept⟩ :=
        @ih previous.physicalAddress (max fin previous.finish) hearlier (by omega) (by omega)
          hvalid.address (fun extent hextent => by
            have hfirst := hgap extent (List.mem_reverse.mpr hextent) previous (by simp)
            have := (hearlier.valid extent (List.mem_reverse.mpr hextent)).bytes
            unfold Extent.finish at hfirst
            omega)
      refine ⟨{ merge with erased := merge.erased ++ [previous] }, by rw [hmerge]; rfl, ?_,
        by dsimp only; omega, by dsimp only; omega, hmergePos, hmergeFin, ?_, hkept⟩
      · dsimp only
        rw [← List.append_assoc, hlist, List.reverse_cons]
      · have hunion : previous.range ∪ Set.Ico start fin =
            Set.Ico previous.physicalAddress (max previous.finish fin) :=
          ico_union_ico (by omega) (by omega)
        dsimp only
        rw [bytesOf_append, bytesOf_cons, bytesOf_nil, Set.union_empty, Set.union_assoc, hunion,
          max_comm, hbytes]

theorem mergeForward_spec {start fin : ℕ} {later : List Extent} (hsorted : SortedValid later)
    (hstart : start < fin) (hfin : fin ≤ uint64Max)
    (hafter : ∀ extent ∈ later, start ≤ extent.physicalAddress) :
    ∃ merge, mergeForward start fin later = some merge ∧
      merge.erased ++ merge.kept = later ∧ merge.start = start ∧ fin ≤ merge.fin ∧
      merge.fin ≤ uint64Max ∧
      Set.Ico start fin ∪ bytesOf merge.erased = Set.Ico start merge.fin ∧
      ∀ extent ∈ merge.kept, merge.fin < extent.physicalAddress := by
  induction later generalizing fin with
  | nil =>
    refine ⟨⟨start, fin, [], []⟩, rfl, rfl, rfl, le_refl _, hfin, ?_, by simp⟩
    rw [bytesOf_nil, Set.union_empty]
  | cons candidate later ih =>
    obtain ⟨hvalid, hgap, hlater⟩ := sortedValid_cons.mp hsorted
    have hcandidate := hafter candidate List.mem_cons_self
    rw [mergeForward]
    by_cases hapart : fin < candidate.physicalAddress
    · rw [if_pos hapart]
      refine ⟨_, rfl, rfl, rfl, le_refl _, hfin, ?_, ?_⟩
      · rw [bytesOf_nil, Set.union_empty]
      · intro extent hextent
        rcases List.mem_cons.mp hextent with rfl | hother
        · exact hapart
        · have hnext := hgap extent hother
          unfold Extent.finish at hnext
          dsimp only
          omega
    · have hbound := hvalid.bound
      have hbytes := hvalid.bytes
      rw [if_neg hapart, hvalid.rangeEnd]
      dsimp only
      obtain ⟨merge, hmerge, hlist, hsame, hge, hmergeFin, hunion, hkept⟩ :=
        @ih (max fin candidate.finish) hlater (by omega) (by omega)
          (fun extent hextent => hafter extent (List.mem_cons_of_mem _ hextent))
      refine ⟨{ merge with erased := candidate :: merge.erased }, by rw [hmerge]; rfl, ?_, hsame,
        by dsimp only; omega, hmergeFin, ?_, hkept⟩
      · dsimp only
        rw [List.cons_append, hlist]
      · have hfirst : Set.Ico start fin ∪ candidate.range =
            Set.Ico start (max fin candidate.finish) :=
          ico_union_ico (by omega) hcandidate
        dsimp only
        rw [bytesOf_cons, ← Set.union_assoc, hfirst, hunion]

/-- The list in order is cut where the new extent goes. -/
theorem SortedValid.takeWhile_before {freeExtents : List Extent} (address : ℕ)
    (h : SortedValid freeExtents) :
    SortedValid (freeExtents.takeWhile (·.physicalAddress < address)) ∧
      SortedValid (freeExtents.dropWhile (·.physicalAddress < address)) ∧
      (∀ extent ∈ freeExtents.takeWhile (·.physicalAddress < address),
        extent.physicalAddress < address) ∧
      ∀ extent ∈ freeExtents.dropWhile (·.physicalAddress < address),
        address ≤ extent.physicalAddress := by
  induction freeExtents with
  | nil => simp [h]
  | cons extent rest ih =>
    obtain ⟨hvalid, hgap, hrest⟩ := sortedValid_cons.mp h
    by_cases hbefore : extent.physicalAddress < address
    · obtain ⟨hfirst, hsecond, hless, hmore⟩ := ih hrest
      rw [List.takeWhile_cons_of_pos (by simpa using hbefore),
        List.dropWhile_cons_of_pos (by simpa using hbefore)]
      refine ⟨?_, hsecond, List.forall_mem_cons.mpr ⟨hbefore, hless⟩, hmore⟩
      refine sortedValid_cons.mpr ⟨hvalid, fun later hlater => ?_, hfirst⟩
      exact hgap later (List.takeWhile_subset _ hlater)
    · rw [List.takeWhile_cons_of_neg (by simpa using hbefore),
        List.dropWhile_cons_of_neg (by simpa using hbefore)]
      refine ⟨⟨by simp, List.Pairwise.nil⟩, h, by simp, ?_⟩
      refine List.forall_mem_cons.mpr ⟨by omega, fun later hlater => ?_⟩
      have hnext := hgap later hlater
      unfold Extent.finish at hnext
      omega

/-- **Adding an extent to a list in order adds its bytes, and can be undone.** -/
theorem addFreeExtent_spec {freeExtents : List Extent} {extent : Extent}
    (hsorted : SortedValid freeExtents) (hvalid : extent.Valid) :
    ∃ added undo, addFreeExtent freeExtents extent = ⟨true, added, undo⟩ ∧ SortedValid added ∧
      bytesOf added = bytesOf freeExtents ∪ extent.range ∧
      rollbackAddFreeExtent added undo = (true, freeExtents) := by
  have hbytes := hvalid.bytes
  have hbound := hvalid.bound
  obtain ⟨hfirst, hsecond, hless, hmore⟩ := hsorted.takeWhile_before extent.physicalAddress
  have hcut : freeExtents.takeWhile (·.physicalAddress < extent.physicalAddress) ++
      freeExtents.dropWhile (·.physicalAddress < extent.physicalAddress) = freeExtents :=
    List.takeWhile_append_dropWhile
  rw [addFreeExtent, hvalid.rangeEnd]
  dsimp only
  rw [isSortedAndValid_iff.mpr hsorted, Bool.not_true, if_neg (by simp)]
  generalize freeExtents.takeWhile (·.physicalAddress < extent.physicalAddress) = before at *
  generalize freeExtents.dropWhile (·.physicalAddress < extent.physicalAddress) = after at *
  have hstart : extent.physicalAddress < extent.finish := by
    unfold Extent.finish
    omega
  obtain ⟨back, hback, hbefore, hbackStart, hbackFin, hpos, hbackBound, hbackBytes, hbackKept⟩ :=
    @mergeBack_spec extent.physicalAddress extent.finish before.reverse
      (by rwa [List.reverse_reverse]) hstart hbound hvalid.address
      (fun other hother => hless other (List.mem_reverse.mp hother))
  obtain ⟨forward, hforward, hafter, hsame, hfin, hforwardBound, hforwardBytes, hforwardKept⟩ :=
    @mergeForward_spec back.start back.fin after hsecond (by omega) hbackBound
      (fun other hother => le_trans hbackStart (hmore other hother))
  rw [List.reverse_reverse] at hbefore
  rw [← hbefore, sortedValid_append] at hfirst
  rw [← hafter, sortedValid_append] at hsecond
  have hmerged : forward.start + (forward.fin - forward.start) = forward.fin := by omega
  rw [hback]
  dsimp only
  rw [hforward]
  refine ⟨_, _, rfl, ?_, ?_, ?_⟩
  · refine sortedValid_append.mpr ⟨hfirst.1, sortedValid_cons.mpr ⟨⟨?_, ?_, ?_⟩, ?_, hsecond.2.1⟩, ?_⟩
    · dsimp only
      omega
    · dsimp only
      omega
    · unfold Extent.finish
      dsimp only
      omega
    · intro later hlater
      unfold Extent.finish
      dsimp only
      rw [hmerged]
      exact hforwardKept later hlater
    · intro earlier hearlier other hother
      have hgap := hbackKept earlier (List.mem_reverse.mp hearlier)
      rcases List.mem_cons.mp hother with rfl | hlater
      · dsimp only
        omega
      · have hnext := hforwardKept other hlater
        omega
  · have hrange : (⟨forward.start, forward.fin - forward.start⟩ : Extent).range =
        bytesOf back.erased ∪ extent.range ∪ bytesOf forward.erased := by
      unfold Extent.range Extent.finish
      dsimp only
      rw [hmerged, hsame, ← hforwardBytes, ← hbackBytes]
      rfl
    rw [bytesOf_append, bytesOf_cons, hrange, ← hcut, ← hbefore, ← hafter]
    simp only [bytesOf_append]
    ext byte
    simp only [Set.mem_union]
    tauto
  · have hlength : back.kept.length = back.kept.reverse.length := List.length_reverse.symm
    have hrestored : back.kept.reverse ++ (back.erased ++ forward.erased) ++ forward.kept =
        freeExtents := by
      rw [← hcut, ← hbefore, ← hafter]
      simp only [List.append_assoc]
    unfold rollbackAddFreeExtent
    dsimp only
    rw [Bool.not_true, if_neg (by simp), if_neg (by simp), hlength,
      List.eraseIdx_append_of_length_le (le_refl _), Nat.sub_self, List.eraseIdx_cons_zero,
      List.take_left, List.drop_left, hrestored, isSortedAndValid_iff.mpr hsorted]

end Allocator
end ApfsAccess
