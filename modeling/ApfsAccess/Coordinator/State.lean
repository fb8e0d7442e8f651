import ApfsAccess.Coordinator.Store
import Mathlib.Data.List.Destutter

/-!
# The coordinator of a container

One `ContainerMountCoordinator` owns the device of a container and serializes every commit of
its volumes under `commit_mutex_`, so a call is one step here.  This module has its state, the
census of checkpoint pins, the snapshot readers and the calls that mount, unmount and refresh a
session.  `CommitNoLock` is in `Coordinator.Commit`.

`trace` is not a member of the source: it records, newest first, what a run has shown to the
stores, the hooks and the device.  No definition reads it.
-/

namespace ApfsAccess
namespace Coordinator

open MetadataStore ContainerDevice Sorting

/-! ## Pins -/

/-- `VolumeCheckpointPins`. -/
structure VolumeCheckpointPins where
  volumeObjectId : ℕ
  requiredCheckpointXids : List ℕ := []
  unappliedAcceptedWork : Bool := false
  deriving DecidableEq, Repr

/-- Why a census or a set of pins is refused. -/
inductive CensusError where
  | requiredCheckpointXidZero
  | requiredCheckpointXidFuture (xid checkpoint : ℕ)
  | requiredCheckpointXidDuplicate
  | requiredCheckpointCensusNotRequired
  | requiredCheckpointCensusAlreadyInitialized
  | requiredCheckpointCensusVolumeUnknown (oid : ℕ)
  | requiredCheckpointUnappliedSourceMissing
  | requiredCheckpointCensusVolumeDuplicate
  | requiredCheckpointCensusIncomplete
  | requiredCheckpointVolumeUnknown (oid : ℕ)
  deriving DecidableEq, Repr

/-- `std::adjacent_find` finds two equal neighbours. -/
def adjacentEqual {α : Type*} [DecidableEq α] : List α → Bool
  | x :: y :: rest => x == y || adjacentEqual (y :: rest)
  | _ => false

/-- `NormalizeRequiredCheckpointXids`. -/
def normalizeRequiredCheckpointXids (xids : List ℕ) (maximumXid : ℕ) :
    Except CensusError (List ℕ) :=
  match xids.find? fun xid => xid == 0 || decide (maximumXid < xid) with
  | some 0 => .error .requiredCheckpointXidZero
  | some xid => .error (.requiredCheckpointXidFuture xid maximumXid)
  | none =>
    if adjacentEqual (sortBy xids (· ≤ ·)) then .error .requiredCheckpointXidDuplicate
    else .ok (sortBy xids (· ≤ ·))

/-- `std::sort` and `std::unique` of a list of checkpoints. -/
def sortUnique (xids : List ℕ) : List ℕ :=
  (sortBy xids (· ≤ ·)).destutter (· ≠ ·)

/-! ## What a run shows -/

/-- A call of a prepublication hook. -/
structure HookCall where
  preimage : ℕ
  /-- The hook returned true. -/
  succeeded : Bool
  /-- A raw snapshot hook that failed before it started to accept. -/
  refusedRaw : Bool
  /-- The commit had mutations. -/
  hasMutations : Bool
  /-- The store of the session held pending work. -/
  hasPendingWork : Bool
  /-- The checkpoints that the hook returned. -/
  returned : List ℕ
  deriving DecidableEq

/-- A retention cleanup whose answer was taken. -/
structure Cleanup where
  preimage : Option ℕ
  hasMutations : Bool
  unappliedAcceptedWork : Bool
  before : List ℕ
  after : List ℕ
  deriving DecidableEq

/-- A call of `CommitTransaction` or `CommitCanonicalTransaction`. -/
structure Publication where
  status : CommitStatus
  /-- The checkpoint that the store had loaded. -/
  loaded : Option ℕ
  /-- The checkpoint that the device showed. -/
  published : ℕ
  /-- The checkpoints that the publication was told to keep. -/
  required : List ℕ
  /-- The pins and the checkpoints of the live readers when it was called. -/
  pins : List VolumeCheckpointPins
  readers : List ℕ
  deriving DecidableEq

/-- What a run shows to the stores, the hooks and the device. -/
inductive Event where
  | reloaded (volume : ℕ)
  | staged (volume : ℕ) (loaded : Option ℕ) (published : ℕ)
  | hooked (volume : ℕ) (call : HookCall)
  | cleaned (volume : ℕ) (cleanup : Cleanup)
  | publication (volume : ℕ) (call : Publication)
  | updated (volume : ℕ)
  deriving DecidableEq

/-! ## The state -/

/-- `ReloadReason`. -/
inductive ReloadReason where
  | rollback
  | beforeCommit
  | recovery
  deriving DecidableEq, Repr

/-- `recovery_reason_`. -/
inductive RecoveryReason where
  | mutationPreparationIdentityChanged
  | partialStageWithAcceptedWork
  | mutationPreparationRollbackFailed
  | deferredStageFailed
  | partialStageRollbackFailed
  | mutationStagingHookWithAcceptedWork
  | mutationStagingHookRollbackFailed
  | acceptedWorkCapacityAdmissionRefused
  | capacityAdmissionRollbackFailed
  | rawSnapshotCapacityRollbackFailed
  | prepublicationPinsInvalid
  | deferredPrepublicationHookFailed
  | prepublicationRollbackFailed
  | sessionCommitRecoveryRequired (failure : StoreFailure)
  | acceptedWorkPublicationFailed
  | cleanCommitRollbackFailed
  | extentRangeOverflow
  | allocationOverlapDetected
  | commitPostpublicationVerificationFailed
  | rawSnapshotHostCompletionPending
  | rawSnapshotPublicationReceiptInvalid
  deriving DecidableEq, Repr

/-- `SessionState`. -/
structure SessionState (σ : Type) where
  volumeObjectId : ℕ
  requestedWrite : Bool := false
  useCanonicalTransaction : Bool := false
  preparedForCommit : Bool := false
  preparedGeneration : ℕ := 0
  preparedStateEpoch : ℕ := 0
  store : σ

/-- A live `SnapshotRuntimeReader`. -/
structure SnapshotReader where
  checkpoint : ℕ
  volume : ℕ
  deriving DecidableEq, Repr

/-- `ContainerMountCoordinator`. -/
structure ContainerMountCoordinator (σ δ : Type) where
  containerUuidHex : List Char := []
  containerVolumeOids : List ℕ
  requireCheckpointCensus : Bool
  checkpointCensusInitialized : Bool
  volumeCheckpointPins : List VolumeCheckpointPins
  sessions : List (SessionState σ) := []
  snapshotReaders : List SnapshotReader := []
  draining : Bool := false
  recoveryRequired : Bool := false
  recoveryVolumeObjectId : ℕ := 0
  recoveryReason : Option RecoveryReason := none
  rawSnapshotRecovery : Option ℕ := none
  rawSnapshotRecoveryReason : Option RecoveryReason := none
  checkpointXid : ℕ
  commitGeneration : ℕ := 0
  committedRanges : List ExtentRange := []
  device : δ
  trace : List Event := []

namespace ContainerMountCoordinator

variable {σ δ : Type} [ContainerDevice δ] [MetadataStore σ δ]

/-- The state in which `OpenHeldImage` returns a coordinator. -/
def opened (uuid : List Char) (catalog : List ℕ) (requireCheckpointCensus : Bool) (device : δ) :
    ContainerMountCoordinator σ δ where
  containerUuidHex := uuid
  containerVolumeOids := sortUnique (catalog.filter (· ≠ 0))
  requireCheckpointCensus := requireCheckpointCensus
  checkpointCensusInitialized := !requireCheckpointCensus
  volumeCheckpointPins :=
    (sortUnique (catalog.filter (· ≠ 0))).map fun oid => { volumeObjectId := oid }
  checkpointXid := publishedXid device
  device := device

/-- `FindVolumeCheckpointPinsNoLock`; the table is ordered, so a binary search finds the same
entry. -/
def findVolumeCheckpointPins (c : ContainerMountCoordinator σ δ) (volume : ℕ) :
    Option VolumeCheckpointPins :=
  c.volumeCheckpointPins.find? (·.volumeObjectId == volume)

/-- The entry of a volume is replaced. -/
def setPins (c : ContainerMountCoordinator σ δ) (pins : VolumeCheckpointPins) :
    ContainerMountCoordinator σ δ :=
  { c with
    volumeCheckpointPins := c.volumeCheckpointPins.map fun entry =>
      if entry.volumeObjectId = pins.volumeObjectId then pins else entry }

/-- Whether a volume has unapplied accepted work. -/
def unapplied (c : ContainerMountCoordinator σ δ) (volume : ℕ) : Bool :=
  match c.findVolumeCheckpointPins volume with
  | some pins => pins.unappliedAcceptedWork
  | none => false

/-- `RequiredCheckpointXidUnionNoLock`. -/
def requiredCheckpointXidUnion (c : ContainerMountCoordinator σ δ) : List ℕ :=
  sortUnique (c.snapshotReaders.map SnapshotReader.checkpoint ++
    c.volumeCheckpointPins.flatMap (·.requiredCheckpointXids))

/-- The session of a volume. -/
def findSession (c : ContainerMountCoordinator σ δ) (volume : ℕ) : Option (SessionState σ) :=
  c.sessions.find? (·.volumeObjectId == volume)

/-- The session of a volume is replaced. -/
def putSession (c : ContainerMountCoordinator σ δ) (session : SessionState σ) :
    ContainerMountCoordinator σ δ :=
  { c with
    sessions := c.sessions.map fun other =>
      if other.volumeObjectId = session.volumeObjectId then session else other }

/-- The checkpoint of the owner is raised. -/
def raiseCheckpointXid (c : ContainerMountCoordinator σ δ) (xid : Option ℕ) :
    ContainerMountCoordinator σ δ :=
  match xid with
  | some xid => { c with checkpointXid := max c.checkpointXid xid }
  | none => c

/-- The owner notes what it has shown. -/
def note (c : ContainerMountCoordinator σ δ) (event : Event) : ContainerMountCoordinator σ δ :=
  { c with trace := event :: c.trace }

/-! ## The census -/

/-- One entry of a census is checked. -/
def normalizeEntry (c : ContainerMountCoordinator σ δ) (entry : VolumeCheckpointPins) :
    Except CensusError VolumeCheckpointPins :=
  if !c.containerVolumeOids.contains entry.volumeObjectId then
    .error (.requiredCheckpointCensusVolumeUnknown entry.volumeObjectId)
  else
    match normalizeRequiredCheckpointXids entry.requiredCheckpointXids c.checkpointXid with
    | .error error => .error error
    | .ok xids =>
      if entry.unappliedAcceptedWork && xids.isEmpty then
        .error .requiredCheckpointUnappliedSourceMissing
      else .ok { entry with requiredCheckpointXids := xids }

/-- `InitializeRequiredCheckpointCensus`. -/
def initializeRequiredCheckpointCensus (c : ContainerMountCoordinator σ δ)
    (volumePins : List VolumeCheckpointPins) :
    Except CensusError Unit × ContainerMountCoordinator σ δ :=
  if !c.requireCheckpointCensus then (.error .requiredCheckpointCensusNotRequired, c)
  else if c.checkpointCensusInitialized then
    (.error .requiredCheckpointCensusAlreadyInitialized, c)
  else
    match volumePins.mapM c.normalizeEntry with
    | .error error => (.error error, c)
    | .ok normalized =>
      let table := sortBy normalized fun left right =>
        left.volumeObjectId ≤ right.volumeObjectId
      if adjacentEqual (table.map (·.volumeObjectId)) then
        (.error .requiredCheckpointCensusVolumeDuplicate, c)
      else if table.map (·.volumeObjectId) ≠ c.containerVolumeOids then
        (.error .requiredCheckpointCensusIncomplete, c)
      else
        (.ok (), { c with volumeCheckpointPins := table, checkpointCensusInitialized := true })

/-- `UpdateRequiredCheckpointXids`. -/
def updateRequiredCheckpointXids (c : ContainerMountCoordinator σ δ) (volume : ℕ)
    (xids : List ℕ) (unappliedAcceptedWork : Bool) :
    Except CensusError Unit × ContainerMountCoordinator σ δ :=
  if c.requireCheckpointCensus && !c.checkpointCensusInitialized then
    (.error .requiredCheckpointCensusIncomplete, c)
  else
    match c.findVolumeCheckpointPins volume with
    | none => (.error (.requiredCheckpointVolumeUnknown volume), c)
    | some pins =>
      match normalizeRequiredCheckpointXids xids c.checkpointXid with
      | .error error => (.error error, c)
      | .ok normalized =>
        if unappliedAcceptedWork && normalized.isEmpty then
          (.error .requiredCheckpointUnappliedSourceMissing, c)
        else
          (.ok (), (c.setPins { pins with
            requiredCheckpointXids := normalized
            unappliedAcceptedWork := unappliedAcceptedWork }).note (.updated volume))

/-! ## Sessions and readers -/

/-- `ContainerVolumeSession`, as far as the coordinator looks at it. -/
structure VolumeSession where
  volumeObjectId : ℕ
  containerUuidHex : List Char := []
  requestedWrite : Bool := false
  useCanonicalTransaction : Bool := false

/-- `LowerHex`. -/
def lowerHex (text : List Char) : List Char :=
  text.map fun ch => if 'A' ≤ ch ∧ ch ≤ 'F' then ch.toLower else ch

/-- Why a session is not mounted or unmounted. -/
inductive SessionError where
  | containerDraining
  | volumeOidInvalid
  | volumeContainerMismatch
  | volumeAlreadyMounted
  | containerCatalogReloadFailed
  | volumeUnknownInContainer
  | volumeSlotIdentityMissing
  | volumeStateLoadFailed
  | volumeNotMounted
  | containerRecoveryRefreshUnavailable
  | recoveryRefreshUnexpectedPendingState
  | volumeWritePathReloadFailed
  deriving DecidableEq, Repr

/-- `MountVolume`. -/
def mountVolume (c : ContainerMountCoordinator σ δ) (session : VolumeSession) :
    Except SessionError Unit × ContainerMountCoordinator σ δ :=
  if c.draining then (.error .containerDraining, c)
  else if session.volumeObjectId = 0 then (.error .volumeOidInvalid, c)
  else if lowerHex session.containerUuidHex ≠ c.containerUuidHex then
    (.error .volumeContainerMismatch, c)
  else if c.sessions.any (·.volumeObjectId == session.volumeObjectId) then
    (.error .volumeAlreadyMounted, c)
  else
    match catalogVolumes c.device with
    | none => (.error .containerCatalogReloadFailed, c)
    | some volumes =>
      if !volumes.contains session.volumeObjectId then (.error .volumeUnknownInContainer, c)
      else if !c.containerVolumeOids.contains session.volumeObjectId then
        (.error .volumeSlotIdentityMissing, c)
      else
        match (load c.device session.volumeObjectId session.useCanonicalTransaction
            session.requestedWrite : Option σ) with
        | none => (.error .volumeStateLoadFailed, c)
        | some store =>
          let c := c.raiseCheckpointXid (MetadataStore.checkpointXid store)
          (.ok (), { c with
            sessions := c.sessions ++ [{
              volumeObjectId := session.volumeObjectId
              requestedWrite := session.requestedWrite
              useCanonicalTransaction := session.useCanonicalTransaction
              store := store }] })

/-- `UnmountVolume`. -/
def unmountVolume (c : ContainerMountCoordinator σ δ) (volume : ℕ) :
    Except SessionError Unit × ContainerMountCoordinator σ δ :=
  if c.draining then (.error .containerDraining, c)
  else if c.sessions.any (·.volumeObjectId == volume) then
    (.ok (), { c with sessions := c.sessions.eraseP (·.volumeObjectId == volume) })
  else (.error .volumeNotMounted, c)

/-- The part of `ReloadSessionForCommitNoLock` that is about the session. -/
def reloadSession (device : δ) (generation : ℕ) (reason : ReloadReason)
    (session : SessionState σ) : Bool × SessionState σ :=
  match prepareNativeWritePath device session.store with
  | (false, store) =>
    (false, { session with store := store, preparedForCommit := false, preparedStateEpoch := 0 })
  | (true, store) =>
    (true, { session with
      store := store
      preparedForCommit := reason != .rollback
      preparedGeneration := if reason != .rollback then generation else 0
      preparedStateEpoch := if reason != .rollback then stateEpoch store else 0 })

/-- `RefreshSessionForRecovery`. -/
def refreshSessionForRecovery (c : ContainerMountCoordinator σ δ) (volume : ℕ) :
    Except SessionError Unit × ContainerMountCoordinator σ δ :=
  if c.draining || c.recoveryRequired || c.rawSnapshotRecovery.isSome then
    (.error .containerRecoveryRefreshUnavailable, c)
  else
    match c.findSession volume with
    | none => (.error .volumeNotMounted, c)
    | some session =>
      if hasPendingStoreWork session.store then
        (.error .recoveryRefreshUnexpectedPendingState, c)
      else
        match reloadSession c.device c.commitGeneration .recovery session with
        | (false, session) =>
          (.error .volumeWritePathReloadFailed, (c.putSession session).note (.reloaded volume))
        | (true, session) => (.ok (), (c.putSession session).note (.reloaded volume))

/-- `RefreshCheckpointFromSession`. -/
def refreshCheckpointFromSession (c : ContainerMountCoordinator σ δ) (volume : ℕ) :
    Except SessionError Unit × ContainerMountCoordinator σ δ :=
  match c.findSession volume with
  | none => (.error .volumeNotMounted, c)
  | some session =>
    let c := c.raiseCheckpointXid (MetadataStore.checkpointXid session.store)
    (.ok (), { c with
      commitGeneration := c.commitGeneration + 1
      sessions := c.sessions.map fun other => { other with
        preparedForCommit := false, preparedGeneration := 0, preparedStateEpoch := 0 } })

/-- `AcquireSnapshotReader`; `loaded` says whether the projection of the snapshot loads. -/
def acquireSnapshotReader (c : ContainerMountCoordinator σ δ) (uuid : List Char)
    (reader : SnapshotReader) (loaded : Bool) : Bool × ContainerMountCoordinator σ δ :=
  if c.draining || !c.requireCheckpointCensus || !c.checkpointCensusInitialized ||
      c.recoveryRequired || reader.checkpoint != c.checkpointXid ||
      uuid != c.containerUuidHex then (false, c)
  else if c.volumeCheckpointPins.any (·.unappliedAcceptedWork) then (false, c)
  else if !loaded then (false, c)
  else if 64 ≤ c.snapshotReaders.length then (false, c)
  else (true, { c with snapshotReaders := c.snapshotReaders ++ [reader] })

/-- The last owner of a reader drops it. -/
def releaseSnapshotReader (c : ContainerMountCoordinator σ δ) (index : ℕ) :
    ContainerMountCoordinator σ δ :=
  { c with snapshotReaders := c.snapshotReaders.eraseIdx index }

end ContainerMountCoordinator

end Coordinator
end ApfsAccess
