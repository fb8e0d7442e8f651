import ApfsAccess.Library.Sorting

/-!
# What the coordinator sees of a volume's store

`ContainerMountCoordinator` works on the stores of the mounted volumes only through the public
methods of `MetadataStore`.  The store is a parameter here: `MetadataStore σ δ` lists the
methods that the coordinator calls on a store `σ` over a device `δ`, and
`LawfulMetadataStore` what it relies on.

* `PrepareNativeWritePath` loads the checkpoint that the device shows and clears every pending
  list; it may fail half way.
* `StageMutation` and `CheckPendingAppleCapacity` leave the loaded checkpoint alone, and what
  was pending stays pending.
* A publication that does not answer `Committed` has left the device alone unless the store
  asks for recovery; `NothingToCommit` and `RetentionBlocked` are answered before any write.
* After `Committed` the store has loaded what it published.
-/

namespace ApfsAccess
namespace Coordinator

/-- `MetadataStore::MutationStatus`. -/
inductive MutationStatus where
  | applied
  | notReady
  | invalidRequest
  | allocationFailed
  | unsupportedOperation
  | capacityBlocked
  deriving DecidableEq, Repr

/-- `MetadataStore::CommitStatus`. -/
inductive CommitStatus where
  | committed
  | nothingToCommit
  | notReady
  | notWritable
  | allocationFailed
  | invariantFailed
  | persistFailed
  | flushFailed
  | retentionBlocked
  | capacityBlocked
  deriving DecidableEq, Repr

/-- `MetadataStore::MutationOperation`. -/
inductive MutationOperation where
  | createFile
  | createDirectory
  | write
  | setFileSize
  | rename
  | delete
  | setBasicInfo
  | setSymbolicLinkTarget
  | removeSymbolicLinkTarget
  | setExtendedAttribute
  | removeExtendedAttribute
  | setInodeMetadata
  | setAllocationSize
  | restoreDirectoryFromSymbolicLink
  | rewriteCompressedContent
  | cloneFile
  | renameVolume
  | createSnapshot
  | deleteSnapshot
  | setVolumeQuotaReserve
  | repairVolumeFileCount
  deriving DecidableEq, Repr

/-- `UnlinkOutcome`. -/
structure UnlinkOutcome where
  objectId : ℕ
  generationBefore : ℕ
  generationAfter : ℕ
  parentObjectId : ℕ
  linksBefore : ℕ
  linksAfter : ℕ
  pathUtf8 : List UInt8
  deriving DecidableEq

/-- `MetadataStore::MutationRequest`. -/
structure MutationRequest where
  operation : MutationOperation := .write
  path : List UInt16 := []
  secondaryPath : List UInt16 := []
  offset : ℕ := 0
  length : ℕ := 0
  replaceIfExists : Bool := false
  timestampUtc : ℕ := 0
  objectId : ℕ := 0
  generation : ℕ := 0
  expectedUnlinkOutcome : Option UnlinkOutcome := none
  inlinePayload : List UInt8 := []
  deferredPayload : List UInt8 := []
  deferredPayloadBound : Bool := false
  deriving DecidableEq

/-- `MetadataStore::PayloadIdentity`. -/
structure PayloadIdentity where
  objectId : ℕ := 0
  generation : ℕ := 0
  deriving DecidableEq, Repr

/-- `ExtentRange`. -/
structure ExtentRange where
  address : ℕ
  bytes : ℕ
  deriving DecidableEq, Repr

/-- The failure reasons of a store that the coordinator looks for. -/
inductive StoreFailure where
  | appleCommitInterruptedBeforePublish
  | appleCommitInterruptedAfterPublish
  | other
  deriving DecidableEq, Repr

/-- The pending lists of a store, by their size. -/
structure PendingWork where
  pendingMutationCount : ℕ := 0
  pendingAllocationCount : ℕ := 0
  pendingDeallocationCount : ℕ := 0
  pendingObjectMapUpdateCount : ℕ := 0
  pendingBtreeRecordCount : ℕ := 0
  pendingPayloadByteEstimate : ℕ := 0
  hasUncommittedAllocatorState : Bool := false
  deriving DecidableEq, Repr

/-- Whether one of the pending lists holds something. -/
def PendingWork.listed (work : PendingWork) : Bool :=
  work.pendingMutationCount != 0 || work.pendingAllocationCount != 0 ||
    work.pendingDeallocationCount != 0 || work.pendingObjectMapUpdateCount != 0 ||
    work.pendingBtreeRecordCount != 0 || work.pendingPayloadByteEstimate != 0

/-- `has_pending_store_work`. -/
def PendingWork.any (work : PendingWork) : Bool :=
  work.listed || work.hasUncommittedAllocatorState

/-- What `StageMutation` returns. -/
structure StagedMutation where
  status : MutationStatus
  identity : PayloadIdentity := {}
  unlinkOutcome : Option UnlinkOutcome := none

/-- The device of a container. -/
class ContainerDevice (δ : Type) where
  /-- The checkpoint that was last published on the device. -/
  publishedXid : δ → ℕ
  /-- The volumes of the container in its catalog, when the catalog loads. -/
  catalogVolumes : δ → Option (List ℕ)

/-- The methods of `MetadataStore` that the coordinator calls, on a store over a device. -/
class MetadataStore (σ : Type) (δ : outParam Type) where
  /-- A new store of a volume, loaded as `MountVolume` loads it. -/
  load : δ → (volumeObjectId : ℕ) → (canonical write : Bool) → Option σ
  checkpointXid : σ → Option ℕ
  lastCommittedXid : σ → Option ℕ
  stateEpoch : σ → ℕ
  isRecoveryRequired : σ → Bool
  isNativeWriteReady : σ → Bool
  pendingWork : σ → PendingWork
  /-- The loaded checkpoint has a volume with snapshots. -/
  hasSnapshotTree : σ → Bool
  /-- The allocations and deallocations of `DebugBuildPendingCheckpointDelta`. -/
  pendingExtents : σ → List ExtentRange × List ExtentRange
  lastCommitFailureReason : σ → StoreFailure
  recoveryReason : σ → StoreFailure
  /-- `LastCommitStage` is "apple-publish-stage-blocked". -/
  publishStageBlocked : σ → Bool
  prepareNativeWritePath : δ → σ → Bool × σ
  stageMutation : σ → MutationRequest → StagedMutation × σ
  checkPendingAppleCapacity : σ → List ℕ → CommitStatus × σ
  commitTransaction : δ → σ → List ℕ → CommitStatus × σ × δ
  commitCanonicalTransaction : δ → σ → List ℕ → CommitStatus × σ × δ

namespace MetadataStore

variable {σ δ : Type} [MetadataStore σ δ]

/-- `has_pending_store_work` of the session's store. -/
def hasPendingStoreWork (store : σ) : Bool := (pendingWork store).any

/-- `native_staging_clean`. -/
def nativeStagingClean (store : σ) : Bool :=
  isNativeWriteReady store && !isRecoveryRequired store && !(pendingWork store).listed

/-- The transaction that a session publishes with. -/
def publish (canonical : Bool) (device : δ) (store : σ) (required : List ℕ) :
    CommitStatus × σ × δ :=
  if canonical then commitCanonicalTransaction device store required
  else commitTransaction device store required

end MetadataStore

open MetadataStore ContainerDevice in
/-- What the coordinator relies on. -/
class LawfulMetadataStore (σ : Type) (δ : outParam Type) [ContainerDevice δ]
    [MetadataStore σ δ] : Prop where
  load_xid {device : δ} {volume : ℕ} {canonical : Bool} {store : σ} :
    load device volume canonical true = some store →
      checkpointXid store = some (publishedXid device)
  prepare_xid {device : δ} {store store' : σ} :
    prepareNativeWritePath device store = (true, store') →
      checkpointXid store' = some (publishedXid device)
  prepare_pending {device : δ} {store store' : σ} :
    prepareNativeWritePath device store = (true, store') → hasPendingStoreWork store' = false
  /-- A load that fails leaves no pending work behind, unless it got as far as the checkpoint. -/
  prepare_failed {device : δ} {store store' : σ} :
    prepareNativeWritePath device store = (false, store') →
      hasPendingStoreWork store = false → hasPendingStoreWork store' = true →
        checkpointXid store' = some (publishedXid device)
  stage_xid (store : σ) (request : MutationRequest) :
    checkpointXid (stageMutation store request).2 = checkpointXid store
  stage_pending {store : σ} {request : MutationRequest} :
    (stageMutation store request).1.status = .applied → hasPendingStoreWork store = true →
      hasPendingStoreWork (stageMutation store request).2 = true
  capacity_xid (store : σ) (required : List ℕ) :
    checkpointXid (checkPendingAppleCapacity store required).2 = checkpointXid store
  capacity_pending (store : σ) (required : List ℕ) :
    hasPendingStoreWork (checkPendingAppleCapacity store required).2 = hasPendingStoreWork store
  publish_committed {canonical : Bool} {device device' : δ} {store store' : σ}
    {required : List ℕ} :
    publish canonical device store required = (.committed, store', device') →
      checkpointXid store' = some (publishedXid device')
  publish_unchanged {canonical : Bool} {device device' : δ} {store store' : σ}
    {required : List ℕ} {status : CommitStatus} :
    publish canonical device store required = (status, store', device') →
      status = .nothingToCommit ∨ status = .retentionBlocked →
        publishedXid device' = publishedXid device ∧
          checkpointXid store' = checkpointXid store ∧
          hasPendingStoreWork store' = hasPendingStoreWork store
  publish_failed {canonical : Bool} {device device' : δ} {store store' : σ}
    {required : List ℕ} {status : CommitStatus} :
    publish canonical device store required = (status, store', device') →
      status ≠ .committed → isRecoveryRequired store' = false →
        publishedXid device' = publishedXid device

/-! ## The plainest store -/

/-- A store that knows its checkpoint and what is staged on it. -/
structure PlainStore where
  loaded : ℕ
  epoch : ℕ := 0
  staged : List MutationRequest := []
  deriving DecidableEq

/-- A device that knows its last checkpoint. -/
instance : ContainerDevice ℕ where
  publishedXid := id
  catalogVolumes _ := some [1, 2]

/-- A plain store publishes what is staged as the next checkpoint. -/
def PlainStore.publish (device : ℕ) (store : PlainStore) : CommitStatus × PlainStore × ℕ :=
  if store.staged = [] then (.nothingToCommit, store, device)
  else (.committed, { store with loaded := store.loaded + 1, staged := [] }, store.loaded + 1)

instance : MetadataStore PlainStore ℕ where
  load device _ _ _ := some { loaded := device }
  checkpointXid store := some store.loaded
  lastCommittedXid store := some store.loaded
  stateEpoch store := store.epoch
  isRecoveryRequired _ := false
  isNativeWriteReady _ := true
  pendingWork store := { pendingMutationCount := store.staged.length }
  hasSnapshotTree _ := false
  pendingExtents _ := ([], [])
  lastCommitFailureReason _ := .other
  recoveryReason _ := .other
  publishStageBlocked _ := false
  prepareNativeWritePath device store := (true, { loaded := device, epoch := store.epoch + 1 })
  stageMutation store request :=
    ({ status := .applied }, { store with staged := store.staged ++ [request] })
  checkPendingAppleCapacity store _ := (.nothingToCommit, store)
  commitTransaction device store _ := store.publish device
  commitCanonicalTransaction device store _ := store.publish device

instance : LawfulMetadataStore PlainStore ℕ where
  load_xid h := by
    cases h
    rfl
  prepare_xid h := by
    cases h
    rfl
  prepare_pending h := by
    cases h
    rfl
  prepare_failed h := by cases h
  stage_xid _ _ := rfl
  stage_pending {store request} _ _ := by
    simp [MetadataStore.hasPendingStoreWork, MetadataStore.pendingWork,
      MetadataStore.stageMutation, PendingWork.any, PendingWork.listed]
  capacity_xid _ _ := rfl
  capacity_pending _ _ := rfl
  publish_committed {canonical device device' store store' required} h := by
    have hpublish : store.publish device = (.committed, store', device') := by
      cases canonical <;> exact h
    unfold PlainStore.publish at hpublish
    split at hpublish
    · cases hpublish
    · cases hpublish
      rfl
  publish_unchanged {canonical device device' store store' required status} h hstatus := by
    have hpublish : store.publish device = (status, store', device') := by
      cases canonical <;> exact h
    unfold PlainStore.publish at hpublish
    split at hpublish
    · cases hpublish
      exact ⟨rfl, rfl, rfl⟩
    · cases hpublish
      rcases hstatus with hstatus | hstatus <;> cases hstatus
  publish_failed {canonical device device' store store' required status} h hstatus _ := by
    have hpublish : store.publish device = (status, store', device') := by
      cases canonical <;> exact h
    unfold PlainStore.publish at hpublish
    split at hpublish
    · cases hpublish
      rfl
    · cases hpublish
      exact absurd rfl hstatus

end Coordinator
end ApfsAccess
