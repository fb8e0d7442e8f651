import ApfsAccess.Allocator.FileExtents

/-!
# Runs of the extent allocator

The allocator is called with contiguous and file allocations, with ranges given back, and with
the undo record of the call before.  `State` carries, beside the free list and the tail, the bytes
that are in use (`live`), which the allocator does not see.

`Sound` is the joint invariant of the free list, the tail and the bytes in use.  Every call keeps
it (`serve_inv`), so that it holds along every run, and then whatever a call hands out was not
in use (`granted_disjoint`).  That the bytes in use lie before the tail is needed for this: the
tail path asks nobody but the policy.
-/

namespace ApfsAccess
namespace Allocator

/-- The last call that can be undone, with its undo record. -/
inductive LastCall
  | none
  | allocation (undo : ContiguousAllocationUndo) (range : Extent)
  | addition (undo : AddFreeExtentUndo) (range : Extent)

/-- The allocator and the bytes that are in use. -/
structure State where
  freeExtents : List Extent
  nextEphemeralExtent : ℕ
  live : Set ℕ
  last : LastCall

/-- A call to the allocator. -/
inductive Request
  | allocateContiguous (bytes : ℕ) (policy : AllocationPolicy)
  | allocateFileExtents (logicalSize alignedTotal blockSize : ℕ) (policy : AllocationPolicy)
  | addFreeExtent (extent : Extent)
  | rollback

/-- The ranges that a call hands out. -/
def granted (state : State) : Request → List Extent
  | .allocateContiguous bytes policy =>
    match allocateContiguous state.freeExtents state.nextEphemeralExtent bytes policy with
    | none => []
    | some allocation => [⟨allocation.address, bytes⟩]
  | .allocateFileExtents logicalSize alignedTotal blockSize policy =>
    match allocateFileExtents state.freeExtents state.nextEphemeralExtent logicalSize alignedTotal
        blockSize policy with
    | none => []
    | some allocation => allocation.allocated
  | _ => []

/-- The state after a call. -/
def serve (state : State) : Request → State
  | .allocateContiguous bytes policy =>
    match allocateContiguous state.freeExtents state.nextEphemeralExtent bytes policy with
    | none => { state with last := .none }
    | some allocation =>
      ⟨allocation.freeExtents, allocation.nextEphemeralExtent,
        state.live ∪ (⟨allocation.address, bytes⟩ : Extent).range,
        .allocation allocation.undo ⟨allocation.address, bytes⟩⟩
  | .allocateFileExtents logicalSize alignedTotal blockSize policy =>
    match allocateFileExtents state.freeExtents state.nextEphemeralExtent logicalSize alignedTotal
        blockSize policy with
    | none => { state with last := .none }
    | some allocation =>
      ⟨allocation.freeExtents, allocation.nextEphemeralExtent,
        state.live ∪ bytesOf allocation.allocated, .none⟩
  | .addFreeExtent extent =>
    match addFreeExtent state.freeExtents extent with
    | ⟨false, freeExtents, _⟩ => { state with freeExtents, last := .none }
    | ⟨true, freeExtents, undo⟩ =>
      ⟨freeExtents, state.nextEphemeralExtent, state.live \ extent.range, .addition undo extent⟩
  | .rollback =>
    match state.last with
    | .none => state
    | .allocation undo range =>
      match rollbackContiguousAllocation state.freeExtents state.nextEphemeralExtent undo with
      | (done, freeExtents, nextEphemeralExtent) =>
        ⟨freeExtents, nextEphemeralExtent, if done then state.live \ range.range else state.live,
          .none⟩
    | .addition undo range =>
      match rollbackAddFreeExtent state.freeExtents undo with
      | (done, freeExtents) =>
        ⟨freeExtents, state.nextEphemeralExtent,
          if done then state.live ∪ range.range else state.live, .none⟩

/-- Only bytes that are in use are given back. -/
def Allowed (state : State) : Request → Prop
  | .addFreeExtent extent => extent.range ⊆ state.live
  | _ => True

/-- The states of the runs from `start`. -/
inductive Reachable (start : State) : State → Prop
  | refl : Reachable start start
  | serve {state : State} (request : Request) (before : Reachable start state)
      (allowed : Allowed state request) : Reachable start (serve state request)

/-- **The free list is in order, before the tail and not in use; the bytes in use lie before the
tail.** -/
structure Sound (freeExtents : List Extent) (nextEphemeralExtent : ℕ) (live : Set ℕ) : Prop where
  sorted : isSortedAndValid freeExtents = true
  below : ∀ extent ∈ freeExtents, extent.finish ≤ nextEphemeralExtent
  disjoint : Disjoint (bytesOf freeExtents) live
  bounded : live ⊆ Set.Iio nextEphemeralExtent

/-- The free list and the tail of a sound state. -/
def Sound.space {freeExtents : List Extent} {nextEphemeralExtent : ℕ} {live : Set ℕ}
    (h : Sound freeExtents nextEphemeralExtent live) : Space :=
  ⟨freeExtents, nextEphemeralExtent, isSortedAndValid_iff.mp h.sorted, h.below⟩

/-- An allocation hands out bytes that were not in use. -/
theorem Takes.disjoint_live {space after : Space} {taken live : Set ℕ} (h : Takes space taken after)
    (hsound : Sound space.freeExtents space.nextEphemeralExtent live) : Disjoint taken live := by
  rw [Set.disjoint_left]
  intro byte htaken hlive
  rcases h.source htaken with hfree | htail
  · exact Set.disjoint_left.mp hsound.disjoint hfree hlive
  · exact absurd (Set.mem_Iio.mp (hsound.bounded hlive)) (not_lt.mpr htail)

/-- An allocation keeps the invariant, with what it hands out in use. -/
theorem Takes.sound {space after : Space} {taken live : Set ℕ} (h : Takes space taken after)
    (hsound : Sound space.freeExtents space.nextEphemeralExtent live) :
    Sound after.freeExtents after.nextEphemeralExtent (live ∪ taken) where
  sorted := isSortedAndValid_iff.mpr after.sorted
  below := after.below
  disjoint := by
    rw [Set.disjoint_union_right]
    constructor
    · exact Set.disjoint_of_subset_left (h.left.trans Set.sdiff_subset) hsound.disjoint
    · exact Set.disjoint_left.mpr fun byte hfree => (h.left hfree).2
  bounded := by
    refine Set.union_subset (fun byte hlive => ?_) h.bound
    exact lt_of_lt_of_le (hsound.bounded hlive) h.grows

/-- The undo record leads back to a sound state. -/
def Undoable (state : State) : Prop :=
  match state.last with
  | .none => True
  | .allocation undo range =>
    ∃ freeExtents nextEphemeralExtent,
      rollbackContiguousAllocation state.freeExtents state.nextEphemeralExtent undo =
        (true, freeExtents, nextEphemeralExtent) ∧
      Sound freeExtents nextEphemeralExtent (state.live \ range.range)
  | .addition undo range =>
    ∃ freeExtents, rollbackAddFreeExtent state.freeExtents undo = (true, freeExtents) ∧
      Sound freeExtents state.nextEphemeralExtent (state.live ∪ range.range)

/-- The invariant of a run. -/
structure Inv (state : State) : Prop where
  sound : Sound state.freeExtents state.nextEphemeralExtent state.live
  undoable : Undoable state

/-- What is handed out was not in use, and no part of it is handed out twice. -/
theorem granted_disjoint {state : State} (h : Inv state) (request : Request) :
    (granted state request).Pairwise (fun left right => Disjoint left.range right.range) ∧
      Disjoint (bytesOf (granted state request)) state.live := by
  have hnone : ([] : List Extent).Pairwise (fun left right => Disjoint left.range right.range) ∧
      Disjoint (bytesOf []) state.live := ⟨List.Pairwise.nil, by simp⟩
  cases request with
  | allocateContiguous bytes policy =>
    rw [granted]
    split
    · exact hnone
    · rename_i allocation hallocation
      obtain ⟨after, -, -, htakes⟩ := @takes_allocateContiguous h.sound.space _ _ _ hallocation
      refine ⟨List.pairwise_singleton _ _, ?_⟩
      rw [bytesOf_singleton]
      exact htakes.disjoint_live h.sound
  | allocateFileExtents logicalSize alignedTotal blockSize policy =>
    rw [granted]
    split
    · exact hnone
    · rename_i allocation hallocation
      obtain ⟨hdisjoint, after, -, -, htakes⟩ :=
        @takes_allocateFileExtents h.sound.space _ _ _ _ _ hallocation
      exact ⟨hdisjoint, htakes.disjoint_live h.sound⟩
  | addFreeExtent extent => exact hnone
  | rollback => exact hnone

/-- Bytes given back are free, and the rest stays in use. -/
theorem Sound.addFreeExtent {freeExtents added : List Extent} {nextEphemeralExtent : ℕ}
    {live range : Set ℕ} (h : Sound freeExtents nextEphemeralExtent live) (hrange : range ⊆ live)
    (hsorted : SortedValid added) (hbytes : bytesOf added = bytesOf freeExtents ∪ range) :
    Sound added nextEphemeralExtent (live \ range) where
  sorted := isSortedAndValid_iff.mpr hsorted
  below := by
    intro extent hextent
    have hpos := (hsorted.valid extent hextent).bytes
    have hlast : extent.finish - 1 ∈ bytesOf added :=
      ⟨extent, hextent, by unfold Extent.finish; omega, by unfold Extent.finish; omega⟩
    rw [hbytes] at hlast
    rcases hlast with hfree | hused
    · have := h.space.bytesOf_lt hfree
      simp only [Sound.space] at this
      omega
    · have hlt : extent.finish - 1 < nextEphemeralExtent := h.bounded (hrange hused)
      omega
  disjoint := by
    rw [hbytes, Set.disjoint_union_left]
    constructor
    · exact Set.disjoint_of_subset_right Set.sdiff_subset h.disjoint
    · exact Set.disjoint_sdiff_right
  bounded := Set.sdiff_subset.trans h.bounded

/-- **Every call keeps the invariant.** -/
theorem serve_inv {state : State} (h : Inv state) (request : Request)
    (hallowed : Allowed state request) : Inv (serve state request) := by
  cases request with
  | allocateContiguous bytes policy =>
    rw [serve]
    split
    · exact ⟨h.sound, trivial⟩
    · rename_i allocation hallocation
      obtain ⟨after, hfree, hnext, htakes⟩ :=
        @takes_allocateContiguous h.sound.space _ _ _ hallocation
      have hback := @rollbackContiguousAllocation_eq h.sound.space _ _ _ hallocation
      have hsound := htakes.sound h.sound
      rw [hfree, hnext] at hsound
      refine ⟨hsound, state.freeExtents, state.nextEphemeralExtent, hback, ?_⟩
      have hlive : (state.live ∪ (⟨allocation.address, bytes⟩ : Extent).range) \
          (⟨allocation.address, bytes⟩ : Extent).range = state.live := by
        rw [Set.union_sdiff_right]
        exact (htakes.disjoint_live h.sound).symm.sdiff_eq_left
      dsimp only
      rw [hlive]
      exact h.sound
  | allocateFileExtents logicalSize alignedTotal blockSize policy =>
    rw [serve]
    split
    · exact ⟨h.sound, trivial⟩
    · rename_i allocation hallocation
      obtain ⟨-, after, hfree, hnext, htakes⟩ :=
        @takes_allocateFileExtents h.sound.space _ _ _ _ _ hallocation
      have hsound := htakes.sound h.sound
      rw [hfree, hnext] at hsound
      exact ⟨hsound, trivial⟩
  | addFreeExtent extent =>
    cases hend : rangeEnd extent.physicalAddress extent.bytes with
    | none =>
      have hrefused : addFreeExtent state.freeExtents extent = ⟨false, state.freeExtents, {}⟩ := by
        unfold addFreeExtent
        rw [hend]
      rw [serve]
      rw [hrefused]
      exact ⟨h.sound, trivial⟩
    | some fin =>
      obtain ⟨added, undo, hadded, hsorted, hbytes, hback⟩ := addFreeExtent_spec
        (isSortedAndValid_iff.mp h.sound.sorted) (rangeEnd_eq_some.mp hend).1
      rw [serve]
      rw [hadded]
      refine ⟨h.sound.addFreeExtent hallowed hsorted hbytes, state.freeExtents, hback, ?_⟩
      dsimp only
      rw [Set.sdiff_union_of_subset hallowed]
      exact h.sound
  | rollback =>
    have hundo := h.undoable
    rw [serve]
    unfold Undoable at hundo
    split
    · exact ⟨h.sound, h.undoable⟩
    · rename_i undo range hlast
      rw [hlast] at hundo
      obtain ⟨freeExtents, nextEphemeralExtent, hback, hsound⟩ := hundo
      rw [hback]
      exact ⟨hsound, trivial⟩
    · rename_i undo range hlast
      rw [hlast] at hundo
      obtain ⟨freeExtents, hback, hsound⟩ := hundo
      rw [hback]
      exact ⟨hsound, trivial⟩

theorem Reachable.inv {start state : State} (h : Reachable start state) (hstart : Inv start) :
    Inv state := by
  induction h with
  | refl => exact hstart
  | serve request _ hallowed ih => exact serve_inv ih request hallowed

/-- **No byte is handed out twice in any run** from a sound state: the free list stays in order,
before the tail and apart from the bytes in use, and what a call hands out was not in use. -/
theorem reachable_sound_and_granted_disjoint {start state : State}
    (hsorted : isSortedAndValid start.freeExtents = true)
    (hbelow : ∀ extent ∈ start.freeExtents, extent.finish ≤ start.nextEphemeralExtent)
    (hdisjoint : Disjoint (bytesOf start.freeExtents) start.live)
    (hbounded : start.live ⊆ Set.Iio start.nextEphemeralExtent) (hlast : start.last = .none)
    (h : Reachable start state) :
    isSortedAndValid state.freeExtents = true ∧
      Disjoint (bytesOf state.freeExtents) state.live ∧
      (∀ extent ∈ state.freeExtents, extent.finish ≤ state.nextEphemeralExtent) ∧
      ∀ request,
        (granted state request).Pairwise (fun left right => Disjoint left.range right.range) ∧
        ∀ extent ∈ granted state request, Disjoint extent.range state.live := by
  have hundoable : Undoable start := by
    unfold Undoable
    rw [hlast]
    trivial
  have hinv := h.inv ⟨⟨hsorted, hbelow, hdisjoint, hbounded⟩, hundoable⟩
  refine ⟨hinv.sound.sorted, hinv.sound.disjoint, hinv.sound.below, fun request => ?_⟩
  obtain ⟨hpairwise, hlive⟩ := granted_disjoint hinv request
  refine ⟨hpairwise, fun extent hextent => ?_⟩
  have hinside : extent.range ⊆ bytesOf (granted state request) := fun byte hbyte =>
    ⟨extent, hextent, hbyte⟩
  exact Set.disjoint_of_subset_left hinside hlive

/-- A block in use past the tail: an allocation runs into it. -/
theorem granted_past_tail_in_use :
    let start : State := ⟨[], 4096, Set.Ico 8192 12288, .none⟩
    let request := Request.allocateContiguous 8192 {}
    isSortedAndValid start.freeExtents = true ∧
      (∀ extent ∈ start.freeExtents, extent.finish ≤ start.nextEphemeralExtent) ∧
      Disjoint (bytesOf start.freeExtents) start.live ∧
      granted start request = [⟨4096, 8192⟩] ∧
      ¬ Disjoint (⟨4096, 8192⟩ : Extent).range start.live := by
  refine ⟨by decide, by simp, by simp, by decide, fun hdisjoint => ?_⟩
  have hgranted : (8192 : ℕ) ∈ (⟨4096, 8192⟩ : Extent).range := ⟨by decide, by decide⟩
  have hlive : (8192 : ℕ) ∈ Set.Ico 8192 12288 := ⟨le_refl _, by decide⟩
  exact Set.disjoint_left.mp hdisjoint hgranted hlive

/-- A block is allocated, and then another from the tail. -/
theorem reachable_sound_and_granted_disjoint_tail :
    let start : State := ⟨[⟨4096, 4096⟩], 12288, Set.Ico 8192 12288, .none⟩
    let state := serve start (.allocateContiguous 4096 {})
    granted state (.allocateContiguous 4096 {}) = [⟨12288, 4096⟩] ∧
      ∀ extent ∈ granted state (.allocateContiguous 4096 {}), Disjoint extent.range state.live := by
  refine ⟨by decide, ?_⟩
  refine ((@reachable_sound_and_granted_disjoint ⟨[⟨4096, 4096⟩], 12288, Set.Ico 8192 12288, .none⟩
    _ (by decide) (by decide) ?_ (fun byte hbyte => hbyte.2) rfl
    (.serve (.allocateContiguous 4096 {}) .refl trivial)).2.2.2 _).2
  rw [bytesOf_singleton, Set.disjoint_left]
  intro byte hfree hlive
  have hhigh : byte < 4096 + 4096 := hfree.2
  have hlow : 8192 ≤ byte := hlive.1
  omega

end Allocator
end ApfsAccess
