import ApfsAccess.Delta.Apply
import ApfsAccess.Delta.Chain

/-!
# Compacting a chain

`CompactChain` folds a chain into one delta: the last update of every key, stamped with the last
checkpoint, and the allocations and deallocations of all deltas one after the other.  It lays the
updates out in the order in which it iterates over its hash maps, which is left open here
(`IterationOrder`).

* `compactChain_sameContents` : the compacted delta changes a state as the chain does.
* `compactChain_usable` : it is a delta that may be encoded, decoded and applied when it comes
  from one delta, and a summary that `Decode` and `ApplyDelta` refuse when it spans more than one
  transaction.
-/

namespace ApfsAccess
namespace Delta

open Format (Bytes)
open LastWrite (Table)

/-- The order in which a program iterates over its hash maps. -/
structure IterationOrder where
  values : {κ υ : Type} → Table κ υ → List υ
  perm : ∀ {κ υ : Type} (table : Table κ υ), (values table).Perm (table.entries.map Sigma.snd)

/-- `CheckpointDeltaChainResult`. -/
structure ChainResult where
  status : ParseStatus := .invalidHeader
  targetXid : UInt64 := 0
  compacted : CheckpointDelta := {}

/-- The variables of the loop of `CompactChain`. -/
structure Collected where
  expectedBase : UInt64
  objectMapById : Table UInt64 ObjectMapUpdate := ∅
  inodeById : Table UInt64 InodeUpdate := ∅
  linkByKey : Table WString DirectoryLinkUpdate := ∅
  btreeByKey : Table Bytes BtreeRecord := ∅
  spacemanAllocations : List Extent := []
  spacemanDeallocations : List Extent := []

/-- One delta is taken into the maps. -/
def Collected.add (collected : Collected) (delta : CheckpointDelta) : Collected where
  expectedBase := delta.targetXid
  objectMapById := LastWrite.collect (·.objectId) collected.objectMapById delta.objectMapUpdates
  inodeById := LastWrite.collect (·.objectId) collected.inodeById delta.inodeUpdates
  linkByKey := LastWrite.collect (·.key) collected.linkByKey delta.directoryLinkUpdates
  btreeByKey := LastWrite.collect (·.mapKey) collected.btreeByKey delta.btreeRecords
  spacemanAllocations := collected.spacemanAllocations ++ delta.spacemanAllocations
  spacemanDeallocations := collected.spacemanDeallocations ++ delta.spacemanDeallocations

/-- The loop of `CompactChain`. -/
def collectDeltas (expectedVolumeIdentity : Bytes) :
    Collected → List CheckpointDelta → ParseStatus × Collected
  | collected, [] => (.ok, collected)
  | collected, delta :: rest =>
    if delta.volumeIdentity ≠ expectedVolumeIdentity then (.wrongVolume, collected)
    else if delta.baseXid ≠ collected.expectedBase ∨
        isValidXidRange delta.baseXid delta.targetXid = false then (.invalidXid, collected)
    else collectDeltas expectedVolumeIdentity (collected.add delta) rest

/-- The delta that `CompactChain` lays out at its end. -/
def Collected.layOut (order : IterationOrder) (expectedVolumeIdentity : Bytes) (baseXid : UInt64)
    (collected : Collected) : CheckpointDelta where
  volumeIdentity := expectedVolumeIdentity
  baseXid := baseXid
  targetXid := collected.expectedBase
  objectMapUpdates := (order.values collected.objectMapById).map fun update =>
    { update with xid := collected.expectedBase }
  spacemanAllocations := collected.spacemanAllocations
  spacemanDeallocations := collected.spacemanDeallocations
  inodeUpdates := (order.values collected.inodeById).map fun inode =>
    { inode with xid := collected.expectedBase }
  directoryLinkUpdates := (order.values collected.linkByKey).map fun link =>
    { link with xid := collected.expectedBase }
  btreeRecords := order.values collected.btreeByKey

/-- `CheckpointDeltaCodec::CompactChain`. -/
def compactChain (order : IterationOrder) (deltas : List CheckpointDelta)
    (expectedVolumeIdentity : Bytes) (baseXid : UInt64) : ChainResult :=
  if deltas = [] ∨ expectedVolumeIdentity = [] ∨ baseXid = 0 then { status := .invalidXid }
  else
    match collectDeltas expectedVolumeIdentity { expectedBase := baseXid } deltas with
    | (.ok, collected) =>
      { status := .ok
        targetXid := collected.expectedBase
        compacted := collected.layOut order expectedVolumeIdentity baseXid }
    | (status, collected) =>
      { status := status
        compacted := {
          volumeIdentity := expectedVolumeIdentity
          baseXid := baseXid
          spacemanAllocations := collected.spacemanAllocations
          spacemanDeallocations := collected.spacemanDeallocations } }

/-! ## What is collected -/

variable {volumeIdentity : Bytes} {baseXid : UInt64} {deltas : List CheckpointDelta}
  {collected : Collected}

/-- The maps after every delta has been taken in. -/
def Collected.addAll (collected : Collected) (deltas : List CheckpointDelta) : Collected where
  expectedBase := chainEnd collected.expectedBase deltas
  objectMapById := LastWrite.collect (·.objectId) collected.objectMapById
    (deltas.flatMap (·.objectMapUpdates))
  inodeById := LastWrite.collect (·.objectId) collected.inodeById
    (deltas.flatMap (·.inodeUpdates))
  linkByKey := LastWrite.collect (·.key) collected.linkByKey
    (deltas.flatMap (·.directoryLinkUpdates))
  btreeByKey := LastWrite.collect (·.mapKey) collected.btreeByKey
    (deltas.flatMap (·.btreeRecords))
  spacemanAllocations := collected.spacemanAllocations ++
    deltas.flatMap (·.spacemanAllocations)
  spacemanDeallocations := collected.spacemanDeallocations ++
    deltas.flatMap (·.spacemanDeallocations)

/-- **The loop of `CompactChain`** ends well exactly on chains, with everything collected. -/
theorem collectDeltas_eq_ok {result : Collected} :
    collectDeltas volumeIdentity collected deltas = (.ok, result) ↔
      FormsChain volumeIdentity collected.expectedBase deltas ∧
      (∀ delta ∈ deltas, isValidXidRange delta.baseXid delta.targetXid = true) ∧
      result = collected.addAll deltas := by
  induction deltas generalizing collected with
  | nil =>
    simp only [collectDeltas, FormsChain, Collected.addAll, chainEnd, LastWrite.collect,
      List.flatMap_nil, List.foldl_nil, List.append_nil, List.not_mem_nil, IsEmpty.forall_iff,
      implies_true, true_and, Prod.mk.injEq]
    exact eq_comm
  | cons delta rest ih =>
    have hadd : (collected.add delta).addAll rest = collected.addAll (delta :: rest) := by
      simp only [Collected.addAll, Collected.add, chainEnd, List.flatMap_cons,
        LastWrite.collect_append, List.append_assoc]
    rw [collectDeltas]
    by_cases hvolume : delta.volumeIdentity = volumeIdentity
    · rw [if_neg (not_not.mpr hvolume)]
      by_cases hchecks : delta.baseXid ≠ collected.expectedBase ∨
          isValidXidRange delta.baseXid delta.targetXid = false
      · rw [if_pos hchecks]
        constructor
        · intro h
          cases h
        · rintro ⟨⟨-, hbase, -⟩, hrange, -⟩
          rcases hchecks with hne | hinvalid
          · exact absurd hbase hne
          · rw [hrange delta List.mem_cons_self] at hinvalid
            cases hinvalid
      · obtain ⟨hbase, hrange⟩ := not_or.mp hchecks
        rw [if_neg hchecks, ih, hadd, List.forall_mem_cons]
        constructor
        · rintro ⟨hchain, hranges, hresult⟩
          exact ⟨⟨hvolume, not_not.mp hbase, hchain⟩, ⟨by simpa using hrange, hranges⟩, hresult⟩
        · rintro ⟨⟨-, -, hchain⟩, ⟨-, hranges⟩, hresult⟩
          exact ⟨hchain, hranges, hresult⟩
    · rw [if_pos hvolume]
      constructor
      · intro h
        cases h
      · rintro ⟨⟨h, -⟩, -⟩
        exact absurd h hvolume

/-- **What `CompactChain` accepts, and what it makes of it.** -/
theorem compactChain_status_eq_ok {order : IterationOrder} :
    (compactChain order deltas volumeIdentity baseXid).status = .ok ↔
      (deltas ≠ [] ∧ volumeIdentity ≠ [] ∧ baseXid ≠ 0) ∧
      FormsChain volumeIdentity baseXid deltas ∧
      (∀ delta ∈ deltas, isValidXidRange delta.baseXid delta.targetXid = true) ∧
      (compactChain order deltas volumeIdentity baseXid).compacted =
        (({ expectedBase := baseXid } : Collected).addAll deltas).layOut order volumeIdentity
          baseXid := by
  unfold compactChain
  by_cases hempty : deltas = [] ∨ volumeIdentity = [] ∨ baseXid = 0
  · rw [if_pos hempty]
    constructor
    · intro h
      cases h
    · rintro ⟨hnonempty, -⟩
      tauto
  · rw [if_neg hempty]
    cases hloop : collectDeltas volumeIdentity { expectedBase := baseXid } deltas with
    | mk status result =>
      have hiff := @collectDeltas_eq_ok volumeIdentity deltas { expectedBase := baseXid } result
      rw [hloop] at hiff
      cases status with
      | ok =>
        obtain ⟨hchain, hranges, hresult⟩ := hiff.mp rfl
        rw [hresult]
        have hnonempty : deltas ≠ [] ∧ volumeIdentity ≠ [] ∧ baseXid ≠ 0 := by tauto
        exact ⟨fun _ => ⟨hnonempty, hchain, hranges, rfl⟩, fun _ => rfl⟩
      | _ =>
        constructor
        · intro h
          cases h
        · rintro ⟨-, hchain, hranges, -⟩
          have hok : collectDeltas volumeIdentity { expectedBase := baseXid } deltas =
            (.ok, _) := collectDeltas_eq_ok.mpr ⟨hchain, hranges, rfl⟩
          rw [hloop] at hok
          cases hok

/-! ## The allocations -/

/-- The ranges that are removed and those that stay make up what was there. -/
theorem perm_of_foldlM_removeExtent {extents removed rest : List Extent}
    (h : removed.foldlM removeExtent extents = some rest) : extents.Perm (removed ++ rest) := by
  induction removed generalizing extents with
  | nil =>
    cases h
    exact List.Perm.refl _
  | cons target removed ih =>
    rw [List.foldlM_cons, Option.bind_eq_bind, Option.bind_eq_some_iff] at h
    obtain ⟨left, hfirst, hrest⟩ := h
    unfold removeExtent at hfirst
    split at hfirst
    · rename_i hmem
      cases hfirst
      exact (List.perm_cons_erase hmem).trans ((ih hrest).cons target)
    · cases hfirst

/-- Ranges that are there, counted, are removed in any order. -/
theorem foldlM_removeExtent_of_perm {extents removed rest : List Extent}
    (h : extents.Perm (removed ++ rest)) :
    ∃ left, removed.foldlM removeExtent extents = some left ∧ left.Perm rest := by
  induction removed generalizing extents with
  | nil => exact ⟨extents, rfl, h⟩
  | cons target removed ih =>
    have hmem : target ∈ extents := h.mem_iff.mpr List.mem_cons_self
    have herase : (extents.erase target).Perm (removed ++ rest) := by
      have hboth := h.erase target
      rwa [List.cons_append, List.erase_cons_head] at hboth
    obtain ⟨left, hleft, hperm⟩ := ih herase
    refine ⟨left, ?_, hperm⟩
    rw [List.foldlM_cons, removeExtent, if_pos hmem, Option.bind_eq_bind, Option.bind_some]
    exact hleft

/-! ## What a replay does -/

/-- A state after a chain, in terms of all updates of the chain. -/
structure Replayed (state : CheckpointDeltaState) (deltas : List CheckpointDelta)
    (final : CheckpointDeltaState) : Prop where
  volumeIdentity : final.volumeIdentity = state.volumeIdentity
  checkpointXid : final.checkpointXid = chainEnd state.checkpointXid deltas
  objectMap : final.objectMap = LastWrite.replay (·.objectId) (·.tombstone) state.objectMap
    (deltas.flatMap (·.objectMapUpdates))
  inodes : final.inodes = LastWrite.replay (·.objectId) (·.tombstone) state.inodes
    (deltas.flatMap (·.inodeUpdates))
  directoryLinks : final.directoryLinks = LastWrite.replay (·.key) (·.tombstone)
    state.directoryLinks (deltas.flatMap (·.directoryLinkUpdates))
  btreeRecords : final.btreeRecords = LastWrite.replay (·.mapKey) (·.tombstone)
    state.btreeRecords (deltas.flatMap (·.btreeRecords))
  allocations : (state.spacemanAllocations ++ deltas.flatMap (·.spacemanAllocations)).Perm
    (deltas.flatMap (·.spacemanDeallocations) ++ final.spacemanAllocations)

variable {state final : CheckpointDeltaState} {delta : CheckpointDelta}

theorem replayed_of_install (h : install state delta = some final) :
    Replayed state [delta] final := by
  obtain ⟨left, hleft, rfl⟩ := Option.map_eq_some_iff.mp h
  refine ⟨rfl, rfl, ?_, ?_, ?_, ?_, ?_⟩
  · rw [List.flatMap_singleton]
    rfl
  · rw [List.flatMap_singleton]
    rfl
  · rw [List.flatMap_singleton]
    rfl
  · rw [List.flatMap_singleton]
    rfl
  · rw [List.flatMap_singleton, List.flatMap_singleton]
    exact perm_of_foldlM_removeExtent hleft

theorem Replayed.cons {mid : CheckpointDeltaState} (hfirst : Replayed state [delta] mid)
    (hrest : Replayed mid deltas final) : Replayed state (delta :: deltas) final := by
  obtain ⟨hvolume, hxid, hobject, hinode, hlink, hbtree, halloc⟩ := hfirst
  simp only [List.flatMap_singleton] at hobject hinode hlink hbtree halloc
  refine ⟨hrest.volumeIdentity.trans hvolume, ?_, ?_, ?_, ?_, ?_, ?_⟩
  · rw [hrest.checkpointXid, hxid]
    rfl
  · rw [hrest.objectMap, hobject, List.flatMap_cons, LastWrite.replay_append]
  · rw [hrest.inodes, hinode, List.flatMap_cons, LastWrite.replay_append]
  · rw [hrest.directoryLinks, hlink, List.flatMap_cons, LastWrite.replay_append]
  · rw [hrest.btreeRecords, hbtree, List.flatMap_cons, LastWrite.replay_append]
  · have hmiddle := (halloc.append_right (deltas.flatMap (·.spacemanAllocations))).trans
      (List.Perm.of_eq (List.append_assoc _ _ _))
    have hall := hmiddle.trans (hrest.allocations.append_left delta.spacemanDeallocations)
    rwa [List.append_assoc, ← List.append_assoc delta.spacemanDeallocations] at hall

/-- **What a chain that goes through does**, and that it is a chain of valid deltas. -/
theorem replayed_of_applyDeltas (h : applyDeltas state deltas = (.ok, final)) :
    Replayed state deltas final ∧
      FormsChain state.volumeIdentity state.checkpointXid deltas ∧
      ∀ delta ∈ deltas, delta.isValidForApply = true := by
  induction deltas generalizing state with
  | nil =>
    cases h
    refine ⟨⟨rfl, rfl, rfl, rfl, rfl, rfl, ?_⟩, trivial, by simp⟩
    rw [List.flatMap_nil, List.append_nil, List.flatMap_nil, List.nil_append]
  | cons delta deltas ih =>
    obtain ⟨mid, hfirst, hrest⟩ := applyDeltas_cons_eq_ok.mp h
    obtain ⟨hvolume, hbase, hvalid, hinstall⟩ := applyDelta_eq_ok.mp hfirst
    obtain ⟨hreplayed, hchain, hothers⟩ := ih hrest
    have hone := replayed_of_install hinstall
    rw [hone.volumeIdentity, hone.checkpointXid] at hchain
    exact ⟨hone.cons hreplayed, ⟨hvolume.symm, hbase.symm, hchain⟩,
      List.forall_mem_cons.mpr ⟨hvalid, hothers⟩⟩

/-! ## The meaning of a compacted chain -/

/-- The same contents, up to the checkpoints that entries are stamped with and the order of the
allocations. -/
structure SameContents (left right : CheckpointDeltaState) : Prop where
  volumeIdentity : left.volumeIdentity = right.volumeIdentity
  checkpointXid : left.checkpointXid = right.checkpointXid
  objectMap : ∀ objectId, (left.objectMap.lookup objectId).map ({ · with xid := 0 }) =
    (right.objectMap.lookup objectId).map ({ · with xid := 0 })
  inodes : ∀ objectId, (left.inodes.lookup objectId).map ({ · with xid := 0 }) =
    (right.inodes.lookup objectId).map ({ · with xid := 0 })
  directoryLinks : ∀ key, (left.directoryLinks.lookup key).map ({ · with xid := 0 }) =
    (right.directoryLinks.lookup key).map ({ · with xid := 0 })
  btreeRecords : ∀ key, left.btreeRecords.lookup key = right.btreeRecords.lookup key
  allocations : left.spacemanAllocations.Perm right.spacemanAllocations

/-- **Replaying the collected updates**, restamped and in any order, gives every key what the
whole log gives it, up to what the stamp changes. -/
theorem lookup_replay_collected {κ υ ω : Type} [DecidableEq κ] (key : υ → κ)
    (tombstone : υ → Bool) (stamp : υ → υ) (view : υ → ω)
    (hkey : ∀ update, key (stamp update) = key update)
    (htomb : ∀ update, tombstone (stamp update) = tombstone update)
    (hview : ∀ update, view (stamp update) = view update) (order : IterationOrder)
    (table : Table κ υ) (updates : List υ) (k : κ) :
    ((LastWrite.replay key tombstone table
        ((order.values (LastWrite.collect key ∅ updates)).map stamp)).lookup k).map view =
      ((LastWrite.replay key tombstone table updates).lookup k).map view := by
  rw [LastWrite.lookup_replay, LastWrite.lookup_replay, LastWrite.last_map key hkey,
    LastWrite.last_values key (LastWrite.keyed_collect key updates) (order.perm _),
    LastWrite.lookup_collect]
  cases LastWrite.last key k updates with
  | none => rfl
  | some update =>
    rw [Option.map_some]
    dsimp only [LastWrite.outcome]
    rw [htomb]
    split
    · rfl
    · rw [Option.map_some, Option.map_some, hview]

/-- A chain that goes through is one that `CompactChain` accepts. -/
theorem compactChain_of_applyChain (order : IterationOrder)
    (h : applyChain state deltas = (.ok, final)) :
    (compactChain order deltas state.volumeIdentity state.checkpointXid).status = .ok := by
  obtain ⟨hnonempty, happly⟩ := applyChain_eq_ok.mp h
  obtain ⟨-, hchain, hvalid⟩ := replayed_of_applyDeltas happly
  have hranges : ∀ delta ∈ deltas, isValidXidRange delta.baseXid delta.targetXid = true :=
    fun delta hdelta => (CheckpointDelta.isValidForApply_iff.mp (hvalid delta hdelta)).1
  have hstart : state.volumeIdentity ≠ [] ∧ state.checkpointXid ≠ 0 := by
    cases deltas with
    | nil => exact absurd rfl hnonempty
    | cons delta rest =>
      obtain ⟨hrange, hname, -⟩ := CheckpointDelta.isValidForApply_iff.mp
        (hvalid delta List.mem_cons_self)
      obtain ⟨hvolume, hbase, -⟩ := hchain
      rw [← hvolume, ← hbase]
      refine ⟨hname, ?_⟩
      intro hzero
      simp [isValidXidRange, hzero] at hrange
  have hempty : ¬ (deltas = [] ∨ state.volumeIdentity = [] ∨ state.checkpointXid = 0) := by
    tauto
  have hloop : collectDeltas state.volumeIdentity { expectedBase := state.checkpointXid } deltas =
    (.ok, _) := collectDeltas_eq_ok.mpr ⟨hchain, hranges, rfl⟩
  unfold compactChain
  rw [if_neg hempty, hloop]

/-- The contents of the compacted delta, laid over a state on which the chain goes through. -/
theorem install_compacted (order : IterationOrder)
    (h : applyChain state deltas = (.ok, final)) :
    ∃ installed, install state
        (compactChain order deltas state.volumeIdentity state.checkpointXid).compacted =
      some installed ∧ SameContents installed final := by
  have hok := compactChain_of_applyChain order h
  obtain ⟨-, -, -, hcompacted⟩ := compactChain_status_eq_ok.mp hok
  obtain ⟨hreplayed, -, -⟩ := replayed_of_applyDeltas (applyChain_eq_ok.mp h).2
  obtain ⟨left, hleft, hperm⟩ := foldlM_removeExtent_of_perm hreplayed.allocations
  rw [hcompacted]
  refine ⟨takeOver state _ left, Option.map_eq_some_iff.mpr ⟨left, ?_, rfl⟩, ?_⟩
  · dsimp only [Collected.layOut, Collected.addAll]
    rw [List.nil_append, List.nil_append, hleft]
  · refine ⟨hreplayed.volumeIdentity.symm, hreplayed.checkpointXid.symm, ?_, ?_, ?_, ?_, hperm⟩
    · intro objectId
      rw [hreplayed.objectMap]
      exact lookup_replay_collected ObjectMapUpdate.objectId ObjectMapUpdate.tombstone
        (fun update : ObjectMapUpdate => { update with xid := chainEnd state.checkpointXid deltas })
        ({ · with xid := 0 }) (fun _ => rfl) (fun _ => rfl) (fun _ => rfl) order _ _ objectId
    · intro objectId
      rw [hreplayed.inodes]
      exact lookup_replay_collected InodeUpdate.objectId InodeUpdate.tombstone
        (fun update : InodeUpdate => { update with xid := chainEnd state.checkpointXid deltas })
        ({ · with xid := 0 }) (fun _ => rfl) (fun _ => rfl) (fun _ => rfl) order _ _ objectId
    · intro key
      rw [hreplayed.directoryLinks]
      exact lookup_replay_collected DirectoryLinkUpdate.key DirectoryLinkUpdate.tombstone
        (fun update : DirectoryLinkUpdate => { update with xid := chainEnd state.checkpointXid deltas })
        ({ · with xid := 0 }) (fun _ => rfl) (fun _ => rfl) (fun _ => rfl) order _ _ key
    · intro key
      have hsame := lookup_replay_collected BtreeRecord.mapKey BtreeRecord.tombstone id id
        (fun _ => rfl) (fun _ => rfl) (fun _ => rfl) order state.btreeRecords (deltas.flatMap (·.btreeRecords)) key
      rw [Option.map_id, List.map_id] at hsame
      rw [hreplayed.btreeRecords]
      exact hsame

/-- **Compaction preserves what a chain means**: on every state on which the chain goes through,
the contents of the compacted delta give every key what the chain gives it, up to the checkpoint
it is stamped with, and leave the same ranges allocated. -/
theorem compactChain_sameContents (order : IterationOrder)
    (h : applyChain state deltas = (.ok, final)) :
    (compactChain order deltas state.volumeIdentity state.checkpointXid).status = .ok ∧
      ∃ installed, install state
          (compactChain order deltas state.volumeIdentity state.checkpointXid).compacted =
        some installed ∧ SameContents installed final :=
  ⟨compactChain_of_applyChain order h, install_compacted order h⟩

/-- The order in which the entries were first written. -/
def IterationOrder.entries : IterationOrder where
  values table := table.entries.map Sigma.snd
  perm _ := List.Perm.refl _

/-- A chain that writes a key, removes it and writes it again. -/
def sampleChain : List CheckpointDelta :=
  [{ volumeIdentity := [1], baseXid := 1, targetXid := 2
     objectMapUpdates := [⟨42, 65536, 4096, 2, false⟩], spacemanAllocations := [⟨65536, 4096⟩] },
   { volumeIdentity := [1], baseXid := 2, targetXid := 3
     objectMapUpdates := [⟨42, 0, 0, 3, true⟩, ⟨42, 131072, 4096, 3, false⟩]
     spacemanAllocations := [⟨131072, 4096⟩], spacemanDeallocations := [⟨65536, 4096⟩] }]

theorem compactChain_sameContents_sample :
    applyChain firstState sampleChain = (.ok, (applyChain firstState sampleChain).2) ∧
      ∃ installed, install firstState
          (compactChain .entries sampleChain [1] 1).compacted = some installed ∧
        SameContents installed (applyChain firstState sampleChain).2 := by
  have happly : applyChain firstState sampleChain =
      (.ok, (applyChain firstState sampleChain).2) := Prod.ext (by decide) rfl
  exact ⟨happly, (compactChain_sameContents .entries happly).2⟩

/-! ## A compacted chain as a delta -/

/-- A chain of `n` deltas is `n` checkpoints long. -/
theorem toNat_chainEnd (hchain : FormsChain volumeIdentity baseXid deltas)
    (hranges : ∀ delta ∈ deltas, isValidXidRange delta.baseXid delta.targetXid = true) :
    (chainEnd baseXid deltas).toNat = baseXid.toNat + deltas.length := by
  induction deltas generalizing baseXid with
  | nil => rfl
  | cons delta rest ih =>
    obtain ⟨-, rfl, hrest⟩ := hchain
    obtain ⟨hrange, hranges⟩ := List.forall_mem_cons.mp hranges
    have hnext : delta.targetXid.toNat = delta.baseXid.toNat + 1 := by
      unfold isValidXidRange at hrange
      simp only [Bool.and_eq_true, decide_eq_true_eq, beq_iff_eq] at hrange
      obtain ⟨⟨-, hlt⟩, heq⟩ := hrange
      rw [UInt64.lt_iff_toNat_lt, heq, UInt64.toNat_add] at hlt
      rw [heq, UInt64.toNat_add]
      have hone : (1 : UInt64).toNat = 1 := rfl
      have hbound := delta.baseXid.toNat_lt
      omega
    rw [chainEnd, ih hrest hranges, hnext, List.length_cons]
    omega

/-- The checkpoints of a compacted delta are next to each other when it comes from one delta. -/
theorem isValidXidRange_chainEnd (hbase : baseXid ≠ 0)
    (hchain : FormsChain volumeIdentity baseXid deltas)
    (hranges : ∀ delta ∈ deltas, isValidXidRange delta.baseXid delta.targetXid = true) :
    isValidXidRange baseXid (chainEnd baseXid deltas) = true ↔ deltas.length = 1 := by
  have hend := toNat_chainEnd hchain hranges
  have hbound := (chainEnd baseXid deltas).toNat_lt
  have hone : (1 : UInt64).toNat = 1 := rfl
  unfold isValidXidRange
  simp only [Bool.and_eq_true, decide_eq_true_eq, beq_iff_eq, bne_iff_ne]
  constructor
  · rintro ⟨⟨-, hlt⟩, heq⟩
    rw [UInt64.lt_iff_toNat_lt] at hlt
    have hsum := congrArg UInt64.toNat heq
    rw [UInt64.toNat_add] at hsum
    omega
  · intro hlength
    have heq : chainEnd baseXid deltas = baseXid + 1 := by
      apply UInt64.toNat_inj.mp
      rw [UInt64.toNat_add]
      omega
    refine ⟨⟨⟨hbase, ?_⟩, ?_⟩, heq⟩
    · intro hzero
      rw [hzero] at hend
      have hzeroNat : (0 : UInt64).toNat = 0 := rfl
      omega
    · rw [UInt64.lt_iff_toNat_lt]
      omega

/-- What is laid out was written by the chain. -/
theorem mem_values_collect {κ υ : Type} [DecidableEq κ] {order : IterationOrder} {key : υ → κ}
    {updates : List υ} {update : υ}
    (h : update ∈ order.values (LastWrite.collect key ∅ updates)) : update ∈ updates := by
  obtain ⟨entry, hentry, rfl⟩ := List.mem_map.mp ((order.perm _).mem_iff.mp h)
  exact (LastWrite.mem_collect key hentry).1

/-- **The records of a compacted chain pass their checks** when those of the chain do. -/
theorem validRecords_layOut {order : IterationOrder}
    (hvalid : ∀ delta ∈ deltas, delta.ValidRecords) :
    ((({ expectedBase := baseXid } : Collected).addAll deltas).layOut order volumeIdentity
      baseXid).ValidRecords := by
  constructor
  · intro update hupdate
    obtain ⟨old, hold, rfl⟩ := List.mem_map.mp hupdate
    obtain ⟨delta, hdelta, hmem⟩ := List.mem_flatMap.mp (mem_values_collect hold)
    have hchecked := (hvalid delta hdelta).objectMap old hmem
    unfold ObjectMapUpdate.isValid at hchecked ⊢
    simp only [Bool.not_eq_true', Bool.or_eq_false_iff] at hchecked ⊢
    exact ⟨⟨hchecked.1.1, by simp [Collected.layOut]⟩, hchecked.2⟩
  · intro extent hextent
    obtain ⟨delta, hdelta, hmem⟩ := List.mem_flatMap.mp hextent
    exact (hvalid delta hdelta).allocations extent hmem
  · intro extent hextent
    obtain ⟨delta, hdelta, hmem⟩ := List.mem_flatMap.mp hextent
    exact (hvalid delta hdelta).deallocations extent hmem
  · intro inode hinode
    obtain ⟨old, hold, rfl⟩ := List.mem_map.mp hinode
    obtain ⟨delta, hdelta, hmem⟩ := List.mem_flatMap.mp (mem_values_collect hold)
    have hchecked := (hvalid delta hdelta).inodes old hmem
    unfold InodeUpdate.isValid at hchecked ⊢
    simp only [Bool.not_eq_true', Bool.or_eq_false_iff] at hchecked ⊢
    exact ⟨⟨hchecked.1.1, by simp [Collected.layOut]⟩, hchecked.2⟩
  · intro link hlink
    obtain ⟨old, hold, rfl⟩ := List.mem_map.mp hlink
    obtain ⟨delta, hdelta, hmem⟩ := List.mem_flatMap.mp (mem_values_collect hold)
    have hchecked := (hvalid delta hdelta).links old hmem
    unfold DirectoryLinkUpdate.isValid at hchecked ⊢
    simp only [Bool.not_eq_true', Bool.or_eq_false_iff] at hchecked ⊢
    exact ⟨⟨hchecked.1.1, by simp [Collected.layOut]⟩, hchecked.2⟩
  · intro record hrecord
    obtain ⟨delta, hdelta, hmem⟩ := List.mem_flatMap.mp (mem_values_collect hrecord)
    exact (hvalid delta hdelta).btree record hmem

/-- **A compacted chain as a delta.**  Encode accepts it when its sections fit.  When it comes from
one delta, with valid records, it is decoded to itself and applied wherever the chain is, to the
same contents.  When it spans more than one transaction, `Decode` and `ApplyDelta` refuse its
range of checkpoints. -/
theorem compactChain_usable (order : IterationOrder)
    (hok : (compactChain order deltas volumeIdentity baseXid).status = .ok) :
    let compacted := (compactChain order deltas volumeIdentity baseXid).compacted
    (compacted.SectionsFit → encode compacted ≠ []) ∧
    (compacted.SectionsFit → (∀ delta ∈ deltas, delta.hasValidRecords = true) →
      decode (encode compacted) volumeIdentity =
        if deltas.length = 1 then .ok compacted else .error .invalidXid) ∧
    ∀ state final, applyChain state deltas = (.ok, final) →
      (deltas.length = 1 → ∃ installed, applyDelta state compacted = (.ok, installed) ∧
        SameContents installed final) ∧
      (deltas.length ≠ 1 → applyDelta state compacted = (.invalidXid, state)) := by
  obtain ⟨⟨hnonempty, hname, hbase⟩, hchain, hranges, hcompacted⟩ :=
    compactChain_status_eq_ok.mp hok
  have hrange := isValidXidRange_chainEnd hbase hchain hranges
  intro compacted
  have hvolume : compacted.volumeIdentity = volumeIdentity := by
    rw [show compacted = _ from hcompacted]
    rfl
  have hxids : compacted.baseXid = baseXid ∧ compacted.targetXid = chainEnd baseXid deltas := by
    rw [show compacted = _ from hcompacted]
    exact ⟨rfl, rfl⟩
  have hrecords : (∀ delta ∈ deltas, delta.ValidRecords) → compacted.ValidRecords := by
    intro hvalid
    rw [show compacted = _ from hcompacted]
    exact validRecords_layOut hvalid
  refine ⟨?_, ?_, ?_⟩
  · intro hfit hnil
    have hlength := congrArg List.length hnil
    rw [encode_of_fit hfit, length_deltaBytes, List.length_nil] at hlength
    omega
  · intro hfit hvalid
    by_cases hone : deltas.length = 1
    · rw [if_pos hone, ← hvolume]
      refine decode_encode hfit ?_ (hrecords fun delta hdelta =>
        CheckpointDelta.hasValidRecords_iff.mp (hvalid delta hdelta))
      rw [hxids.1, hxids.2]
      exact hrange.mpr hone
    · have hinvalid : isValidXidRange baseXid (chainEnd baseXid deltas) = false :=
        Bool.eq_false_iff.mpr fun hvalid => hone (hrange.mp hvalid)
      rw [if_neg hone, ← hvolume, encode_of_fit hfit, decode_deltaBytes, hxids.1, hxids.2,
        hinvalid]
      rfl
  · intro state final happly
    obtain ⟨-, happlied, hvalid⟩ := replayed_of_applyDeltas (applyChain_eq_ok.mp happly).2
    -- a state on which the chain goes through is at the volume and the checkpoint of the chain
    obtain ⟨hstateVolume, hstateBase⟩ :
        state.volumeIdentity = volumeIdentity ∧ state.checkpointXid = baseXid := by
      cases deltas with
      | nil => exact absurd rfl hnonempty
      | cons delta rest =>
        exact ⟨happlied.1.symm.trans hchain.1, happlied.2.1.symm.trans hchain.2.1⟩
    constructor
    · intro hone
      obtain ⟨installed, hinstalled, hsame⟩ := install_compacted order happly
      rw [hstateVolume, hstateBase] at hinstalled
      refine ⟨installed, applyDelta_eq_ok.mpr ⟨hstateVolume.trans hvolume.symm,
        hstateBase.trans hxids.1.symm, ?_, hinstalled⟩, hsame⟩
      refine CheckpointDelta.isValidForApply_iff.mpr ⟨?_, ?_, hrecords fun delta hdelta =>
        (CheckpointDelta.isValidForApply_iff.mp (hvalid delta hdelta)).2.2⟩
      · rw [hxids.1, hxids.2]
        exact hrange.mpr hone
      · rw [hvolume]
        exact hname
    · intro hmany
      have hinvalid : compacted.isValidForApply = false := by
        refine Bool.eq_false_iff.mpr fun hvalid => hmany (hrange.mp ?_)
        have hvalidRange := (CheckpointDelta.isValidForApply_iff.mp hvalid).1
        rwa [hxids.1, hxids.2] at hvalidRange
      unfold applyDelta
      rw [if_neg (not_not.mpr (hstateVolume.trans hvolume.symm)), if_pos (.inr hinvalid)]

/-- A chain of one delta whose compaction is applied. -/
theorem compactChain_usable_single :
    (compactChain .entries [sampleDelta] [1] 1).status = .ok ∧
      ∃ installed, applyDelta firstState (compactChain .entries [sampleDelta] [1] 1).compacted =
        (.ok, installed) := by
  have hok : (compactChain .entries [sampleDelta] [1] 1).status = .ok := by decide
  have happly : applyChain firstState [sampleDelta] =
      (.ok, (applyChain firstState [sampleDelta]).2) := Prod.ext (by decide) rfl
  obtain ⟨installed, hinstalled, -⟩ := ((compactChain_usable .entries hok).2.2 _ _ happly).1 rfl
  exact ⟨hok, installed, hinstalled⟩

/-- **The compaction of two deltas is neither decoded nor applied.** -/
theorem compactChain_two_refused :
    (compactChain .entries sampleChain [1] 1).status = .ok ∧
      (applyChain firstState sampleChain).1 = .ok ∧
      decode (encode (compactChain .entries sampleChain [1] 1).compacted) [1] =
        .error .invalidXid ∧
      (applyDelta firstState (compactChain .entries sampleChain [1] 1).compacted).1 =
        .invalidXid := by
  refine ⟨by decide, by decide, ?_, by decide⟩
  decide +kernel

end Delta
end ApfsAccess
