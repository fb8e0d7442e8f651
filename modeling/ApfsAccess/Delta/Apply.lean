import ApfsAccess.Delta.Record
import ApfsAccess.Library.LastWrite

/-!
# Applying deltas

`ApplyDelta` works on a copy of the state and moves the copy into place when every record has
been taken over; `ApplyChain` does the same with a copy of its own for all of its deltas.  So a
call either goes through or leaves the caller's state as it was.

* `applyChain_atomic_and_splits` : a failing chain changes nothing, and a chain goes through
  exactly when its two parts do, one after the other.

An empty chain is refused, so the parts have to have a delta each.
-/

namespace ApfsAccess
namespace Delta

open Format (Bytes)
open LastWrite (Table)

/-- `CheckpointDeltaState`. -/
structure CheckpointDeltaState where
  volumeIdentity : Bytes := []
  checkpointXid : UInt64 := 0
  objectMap : Table UInt64 ObjectMapUpdate := ∅
  spacemanAllocations : List Extent := []
  inodes : Table UInt64 InodeUpdate := ∅
  directoryLinks : Table WString DirectoryLinkUpdate := ∅
  btreeRecords : Table Bytes BtreeRecord := ∅

/-- `std::to_wstring` of an object id. -/
def toWString (value : UInt64) : WString :=
  (Nat.toDigits 10 value.toNat).map fun digit => UInt16.ofNat digit.toNat

/-- `DirectoryLinkKey`, of the link itself. -/
def DirectoryLinkUpdate.key (link : DirectoryLinkUpdate) : WString :=
  toWString link.parentObjectId ++ 0x3A :: link.entryName

/-- `BtreeRecordKey`. -/
def BtreeRecord.mapKey (record : BtreeRecord) : Bytes := record.kind :: record.key

/-- `RemoveExtent`. -/
def removeExtent (extents : List Extent) (target : Extent) : Option (List Extent) :=
  if target ∈ extents then some (extents.erase target) else none

/-- The state with the updates of a delta and the allocations that are left. -/
def takeOver (state : CheckpointDeltaState) (delta : CheckpointDelta)
    (spacemanAllocations : List Extent) : CheckpointDeltaState where
  volumeIdentity := state.volumeIdentity
  checkpointXid := delta.targetXid
  objectMap := LastWrite.replay (·.objectId) (·.tombstone) state.objectMap delta.objectMapUpdates
  spacemanAllocations := spacemanAllocations
  inodes := LastWrite.replay (·.objectId) (·.tombstone) state.inodes delta.inodeUpdates
  directoryLinks := LastWrite.replay (·.key) (·.tombstone) state.directoryLinks
    delta.directoryLinkUpdates
  btreeRecords := LastWrite.replay (·.mapKey) (·.tombstone) state.btreeRecords delta.btreeRecords

/-- The body of `ApplyDelta`, past its checks: it fails when a deallocation is not found. -/
def install (state : CheckpointDeltaState) (delta : CheckpointDelta) :
    Option CheckpointDeltaState :=
  (delta.spacemanDeallocations.foldlM removeExtent
    (state.spacemanAllocations ++ delta.spacemanAllocations)).map (takeOver state delta)

/-- `CheckpointDeltaCodec::ApplyDelta`, with the caller's state after the call. -/
def applyDelta (state : CheckpointDeltaState) (delta : CheckpointDelta) :
    ParseStatus × CheckpointDeltaState :=
  if state.volumeIdentity ≠ delta.volumeIdentity then (.wrongVolume, state)
  else if state.checkpointXid ≠ delta.baseXid ∨ delta.isValidForApply = false then
    (.invalidXid, state)
  else
    match install state delta with
    | none => (.invalidRecord, state)
    | some next => (.ok, next)

/-- The loop of `ApplyChain`, with the copy that it works on. -/
def applyDeltas : CheckpointDeltaState → List CheckpointDelta → ParseStatus × CheckpointDeltaState
  | next, [] => (.ok, next)
  | next, delta :: rest =>
    if (applyDelta next delta).1 = .ok then applyDeltas (applyDelta next delta).2 rest
    else applyDelta next delta

/-- `CheckpointDeltaCodec::ApplyChain`, with the caller's state after the call. -/
def applyChain (state : CheckpointDeltaState) (deltas : List CheckpointDelta) :
    ParseStatus × CheckpointDeltaState :=
  if deltas = [] then (.empty, state)
  else if (applyDeltas state deltas).1 = .ok then applyDeltas state deltas
  else ((applyDeltas state deltas).1, state)

/-! ## What goes through -/

variable {state mid final : CheckpointDeltaState} {delta : CheckpointDelta}
  {deltas later : List CheckpointDelta}

/-- **A delta goes through** when it is for the state, passes its check and its deallocations are
found. -/
theorem applyDelta_eq_ok : applyDelta state delta = (.ok, final) ↔
    state.volumeIdentity = delta.volumeIdentity ∧ state.checkpointXid = delta.baseXid ∧
      delta.isValidForApply = true ∧ install state delta = some final := by
  unfold applyDelta
  by_cases hvolume : state.volumeIdentity = delta.volumeIdentity
  · rw [if_neg (not_not.mpr hvolume)]
    by_cases hchecks : state.checkpointXid ≠ delta.baseXid ∨ delta.isValidForApply = false
    · rw [if_pos hchecks]
      constructor
      · intro h
        cases h
      · rintro ⟨-, hbase, hvalid, -⟩
        rcases hchecks with hne | hinvalid
        · exact absurd hbase hne
        · rw [hvalid] at hinvalid
          cases hinvalid
    · rw [if_neg hchecks]
      obtain ⟨hbase, hvalid⟩ := not_or.mp hchecks
      cases hinstall : install state delta with
      | none =>
        constructor
        · intro h
          cases h
        · rintro ⟨-, -, -, h⟩
          cases h
      | some next =>
        constructor
        · intro h
          cases h
          exact ⟨hvolume, not_not.mp hbase, by simpa using hvalid, rfl⟩
        · rintro ⟨-, -, -, h⟩
          cases h
          rfl
  · rw [if_pos hvolume]
    constructor
    · intro h
      cases h
    · rintro ⟨h, -⟩
      exact absurd h hvolume

theorem applyDeltas_cons_eq_ok : applyDeltas state (delta :: deltas) = (.ok, final) ↔
    ∃ mid, applyDelta state delta = (.ok, mid) ∧ applyDeltas mid deltas = (.ok, final) := by
  rw [applyDeltas]
  split
  · rename_i hok
    constructor
    · exact fun h => ⟨(applyDelta state delta).2, Prod.ext hok rfl, h⟩
    · rintro ⟨mid, hmid, hfinal⟩
      rw [hmid]
      exact hfinal
  · rename_i hfailed
    constructor
    · intro h
      rw [h] at hfailed
      exact absurd rfl hfailed
    · rintro ⟨mid, hmid, -⟩
      rw [hmid] at hfailed
      exact absurd rfl hfailed

/-- **The loop over two chains** is the loop over the second from where the first ended. -/
theorem applyDeltas_append_eq_ok : applyDeltas state (deltas ++ later) = (.ok, final) ↔
    ∃ mid, applyDeltas state deltas = (.ok, mid) ∧ applyDeltas mid later = (.ok, final) := by
  induction deltas generalizing state with
  | nil =>
    constructor
    · exact fun h => ⟨state, rfl, h⟩
    · rintro ⟨mid, hmid, hfinal⟩
      cases hmid
      exact hfinal
  | cons delta deltas ih =>
    rw [List.cons_append, applyDeltas_cons_eq_ok]
    constructor
    · rintro ⟨first, hfirst, hrest⟩
      obtain ⟨mid, hmid, hfinal⟩ := ih.mp hrest
      exact ⟨mid, applyDeltas_cons_eq_ok.mpr ⟨first, hfirst, hmid⟩, hfinal⟩
    · rintro ⟨mid, hmid, hfinal⟩
      obtain ⟨first, hfirst, hrest⟩ := applyDeltas_cons_eq_ok.mp hmid
      exact ⟨first, hfirst, ih.mpr ⟨mid, hrest, hfinal⟩⟩

theorem applyChain_eq_ok : applyChain state deltas = (.ok, final) ↔
    deltas ≠ [] ∧ applyDeltas state deltas = (.ok, final) := by
  unfold applyChain
  by_cases hempty : deltas = []
  · rw [if_pos hempty]
    constructor
    · intro h
      cases h
    · rintro ⟨h, -⟩
      exact absurd hempty h
  · rw [if_neg hempty]
    split
    · exact ⟨fun h => ⟨hempty, h⟩, fun h => h.2⟩
    · rename_i hfailed
      constructor
      · intro h
        exact absurd (congrArg Prod.fst h) hfailed
      · rintro ⟨-, h⟩
        exact absurd (congrArg Prod.fst h) hfailed

/-- **Delta application is atomic and splits.**  A chain that fails leaves the caller's state as
it was; two chains with a delta each go through as one exactly when they go through one after the
other, to the same state; an empty chain is refused. -/
theorem applyChain_atomic_and_splits (state : CheckpointDeltaState) :
    (∀ deltas, (applyChain state deltas).1 ≠ .ok → (applyChain state deltas).2 = state) ∧
    (∀ deltas later final, deltas ≠ [] → later ≠ [] →
      (applyChain state (deltas ++ later) = (.ok, final) ↔
        ∃ mid, applyChain state deltas = (.ok, mid) ∧ applyChain mid later = (.ok, final))) ∧
    applyChain state [] = (.empty, state) := by
  refine ⟨?_, ?_, rfl⟩
  · intro deltas hfailed
    unfold applyChain at hfailed ⊢
    split
    · rfl
    · rename_i hnonempty
      rw [if_neg hnonempty] at hfailed
      split
      · rename_i hok
        rw [if_pos hok] at hfailed
        exact absurd hok hfailed
      · rfl
  · intro deltas later final hdeltas hlater
    rw [applyChain_eq_ok, applyDeltas_append_eq_ok]
    constructor
    · rintro ⟨-, mid, hmid, hfinal⟩
      exact ⟨mid, applyChain_eq_ok.mpr ⟨hdeltas, hmid⟩, applyChain_eq_ok.mpr ⟨hlater, hfinal⟩⟩
    · rintro ⟨mid, hmid, hfinal⟩
      exact ⟨by simp [hdeltas], mid, (applyChain_eq_ok.mp hmid).2, (applyChain_eq_ok.mp hfinal).2⟩

/-- A volume at its first checkpoint. -/
def firstState : CheckpointDeltaState where
  volumeIdentity := [1]
  checkpointXid := 1

/-- A delta on it. -/
def firstDelta : CheckpointDelta where
  volumeIdentity := [1]
  baseXid := 1
  targetXid := 2

/-- Two deltas go through as one chain because each of them does. -/
theorem applyChain_atomic_and_splits_first :
    applyChain firstState ([firstDelta] ++ [{ firstDelta with baseXid := 2, targetXid := 3 }]) =
      (.ok, { firstState with checkpointXid := 3 }) :=
  ((applyChain_atomic_and_splits firstState).2.1 _ _ _ (by decide) (by decide)).mpr
    ⟨{ firstState with checkpointXid := 2 }, rfl, rfl⟩

/-- An empty part does not go through, although the whole does. -/
theorem applyChain_nil_append :
    (applyChain firstState ([] ++ [firstDelta])).1 = .ok ∧
      ¬ ((applyChain firstState []).1 = .ok ∧
        (applyChain (applyChain firstState []).2 [firstDelta]).1 = .ok) := by
  decide

end Delta
end ApfsAccess
