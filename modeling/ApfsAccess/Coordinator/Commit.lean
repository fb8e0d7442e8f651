import ApfsAccess.Coordinator.State
import ApfsAccess.Library.Funnel

/-!
# The commit funnel

`CommitNoLock`, stage by stage: the checks that need no session, the reload before the commit,
the checks on the preimage, the preparation hook, staging, the capacity check with its retention
cleanup, the prepublication hook, publication, and what follows a publication.  Every stage may
stop the commit; most of them then roll back by a reload or latch the recovery of the
container.

The hooks are arguments of a call and answer as they like.  The coordinator compares the store
with a copy of what it could observe before a hook ran; an answer says whether the two differ
and what the store then is.

The prepared metadata plan, which a store may carry from the capacity check to the publication,
is part of the store here.  `raw_recovery` is null in `Commit` and `CommitRawSnapshot`, and its
branches are left out.
-/

namespace ApfsAccess
namespace Coordinator

open MetadataStore ContainerDevice Sorting

/-- The errors of `ContainerCommitResult`. -/
inductive CommitError where
  | containerDraining
  | containerRecoveryRequired (reason : Option RecoveryReason)
  | rawSnapshotRetainedRecoveryRequired
  | volumeNotMounted
  | volumeNotWritable
  | deferredPublicationHookRequired
  | requiredCheckpointCensusIncomplete
  | volumeAcceptedRecoveryPending (oid : ℕ)
  | siblingAcceptedRecoveryPending (oid : ℕ)
  | volumeQuotaReserveAcceptedWalBoundaryRequired
  | volumeQuotaReserveCanonicalCensusRequired
  | volumeQuotaReserveActiveSessionReservation
  | volumeQuotaReserveConflictingReplay
  | nativeManagementActiveSessionReservation
  | commitUnexpectedPendingState
  | commitCommitterReloadFailed
  | acceptedReplayPreimageAdvanced
  | commitPreimageCheckpointMissing
  | siblingCheckpointCleanupPending (oid : ℕ)
  | snapshotRuntimeReaderBusy
  | commitMutationPreparationHookFailed
  | commitStageFailed (status : MutationStatus)
  | commitMutationStagingHookFailed
  | commitCapacityAdmissionRefused
  | rawSnapshotBeforeAcceptance
  | commitPrepublicationHookFailed
  | commitRetentionBlocked
  | commitPersistFailed (status : CommitStatus)
  | commitLedgerOverlap
  | commitPostpublicationVerificationFailed
  deriving DecidableEq, Repr

/-- `ContainerMutationStagingFailure`. -/
structure MutationStagingFailure where
  mutationIndex : ℕ
  operation : MutationOperation
  path : List UInt16
  secondaryPath : List UInt16
  offset : ℕ
  length : ℕ
  deriving DecidableEq

/-- `ContainerCommitResult`. -/
structure ContainerCommitResult where
  committed : Bool := false
  acceptedWithoutPublication : Bool := false
  error : Option CommitError := none
  checkpointXid : ℕ := 0
  commitStatusCode : CommitStatus := .notReady
  committedXid : ℕ := 0
  commitRecoveryRequired : Bool := false
  cleanPrepublicationRefusal : Bool := false
  mutationStagingStatus : Option MutationStatus := none
  mutationStagingFailure : Option MutationStagingFailure := none
  stagedIdentities : List PayloadIdentity := []
  deriving DecidableEq

/-! ## The call and its hooks -/

/-- What a prepublication hook answers. -/
structure PrepublicationAnswer where
  succeeded : Bool
  /-- `out_required_checkpoint_xids`. -/
  returned : List ℕ
  /-- `AcceptanceStarted` of the raw candidate after the hook. -/
  acceptanceStarted : Bool := true

/-- What a mutation preparation hook answers. -/
structure PreparationAnswer (σ : Type) where
  prepared : Bool
  /-- The hook threw or left an error text. -/
  failed : Bool := false
  requests : List MutationRequest
  /-- The store, when it differs from the copy, and whether its identity does. -/
  tampered : Option (σ × Bool) := none

/-- What a retention cleanup hook answers. -/
structure RetentionAnswer (σ : Type) where
  censusValid : Bool
  /-- The hook threw or left an error text. -/
  failed : Bool := false
  /-- `out_required_checkpoint_xids`. -/
  returned : List ℕ
  /-- The store, when its checkpoint or its pending work differs from the copy. -/
  tampered : Option σ := none

/-- The arguments of `CommitNoLock`. -/
structure CommitCall (σ : Type) where
  volumeObjectId : ℕ
  mutations : List MutationRequest := []
  prepublicationHook : Option
    (List MutationRequest → List PayloadIdentity → ℕ → List ℕ → PrepublicationAnswer) := none
  mutationStagingHook : Option (ℕ → MutationRequest → PayloadIdentity → Bool) := none
  retentionCleanupHook : Option (List ℕ → RetentionAnswer σ) := none
  acceptedReplay : Bool := false
  expectedReplayPreimage : Option ℕ := none
  mutationPreparationHook : Option
    (σ → List MutationRequest → PreparationAnswer σ) := none
  /-- The verifier returned true, without an error text. -/
  postpublicationVerifierHook : Option (σ → ℕ → Bool) := none
  retainAcceptedOwnerUntilCleanup : Bool := false
  deferPublication : Bool := false
  rawCandidate : Option ℕ := none
  /-- `CaptureVerifiedPublication` of the raw candidate. -/
  captureVerifiedPublication : σ → Bool := fun _ => false

variable {σ δ : Type} [ContainerDevice δ] [MetadataStore σ δ]

/-! ## The ledger of the legacy writer -/

/-- The largest value of `uint64_t`. -/
def uint64Max : ℕ := 2 ^ 64 - 1

/-- `valid_range`. -/
def ExtentRange.valid (range : ExtentRange) : Bool :=
  range.bytes == 0 || decide (range.address ≤ uint64Max - range.bytes)

/-- The loop of `normalize` over the sorted ranges. -/
def mergeRanges : List ExtentRange → Except RecoveryReason (List ExtentRange)
  | [] => .ok []
  | [range] => .ok [range]
  | prior :: range :: rest =>
    if range.address < prior.address + prior.bytes then .error .allocationOverlapDetected
    else if range.address = prior.address + prior.bytes then
      mergeRanges ({ prior with bytes := prior.bytes + range.bytes } :: rest)
    else
      match mergeRanges (range :: rest) with
      | .error error => .error error
      | .ok merged => .ok (prior :: merged)
  termination_by ranges => ranges.length

/-- `normalize` of `ApplyExtentDelta`. -/
def normalizeRanges (ranges : List ExtentRange) : Except RecoveryReason (List ExtentRange) :=
  let kept := ranges.filter (·.bytes != 0)
  if kept.all (·.valid) then
    mergeRanges (sortBy kept fun left right => left.address ≤ right.address)
  else .error .extentRangeOverflow

/-- What is left of a range of the ledger when another one is released. -/
def releaseFrom (released existing : ExtentRange) : List ExtentRange :=
  if released.address + released.bytes ≤ existing.address ∨
      existing.address + existing.bytes ≤ released.address then [existing]
  else
    (if existing.address < released.address then
      [⟨existing.address, released.address - existing.address⟩] else []) ++
    (if released.address + released.bytes < existing.address + existing.bytes then
      [⟨released.address + released.bytes,
        existing.address + existing.bytes - (released.address + released.bytes)⟩] else [])

/-- `RangesOverlap`. -/
def rangesOverlap (left right : ExtentRange) : Bool :=
  if left.bytes = 0 ∨ right.bytes = 0 then false
  else if !left.valid || !right.valid then true
  else decide (left.address < right.address + right.bytes ∧
    right.address < left.address + left.bytes)

/-- The deallocations of a delta are taken out of the ledger. -/
def releaseAll : List ExtentRange → List ExtentRange → Except RecoveryReason (List ExtentRange)
  | working, [] => .ok working
  | working, released :: rest =>
    if released.bytes = 0 then releaseAll working rest
    else if !released.valid then .error .extentRangeOverflow
    else releaseAll (working.flatMap (releaseFrom released)) rest

/-- The allocations of a delta are put into the ledger. -/
def allocateAll : List ExtentRange → List ExtentRange → Except RecoveryReason (List ExtentRange)
  | working, [] => .ok working
  | working, allocated :: rest =>
    if allocated.bytes = 0 then allocateAll working rest
    else if !allocated.valid then .error .extentRangeOverflow
    else if working.any (rangesOverlap allocated) then .error .allocationOverlapDetected
    else allocateAll (working ++ [allocated]) rest

/-- `ApplyExtentDelta`. -/
def applyExtentDelta (ledger allocations deallocations : List ExtentRange) :
    Except RecoveryReason (List ExtentRange) := do
  let working ← normalizeRanges ledger
  let released ← releaseAll working deallocations
  let allocated ← allocateAll released allocations
  normalizeRanges allocated

/-! ## Before the session is touched -/

namespace ContainerMountCoordinator

/-- `existing_accepted_pending`. -/
def existingAcceptedPending (c : ContainerMountCoordinator σ δ) (session : SessionState σ) :
    Bool :=
  c.unapplied session.volumeObjectId && hasPendingStoreWork session.store

/-- The first volume whose unapplied accepted work blocks the call. -/
def blockingPins (c : ContainerMountCoordinator σ δ) (call : CommitCall σ)
    (session : SessionState σ) : Option VolumeCheckpointPins :=
  c.volumeCheckpointPins.find? fun pins =>
    pins.unappliedAcceptedWork &&
      !(call.acceptedReplay && c.unapplied call.volumeObjectId) &&
      !(pins.volumeObjectId == call.volumeObjectId && c.existingAcceptedPending session)

/-- A session that a management operation waits for. -/
def sessionBusy (session : SessionState σ) : Bool :=
  hasPendingStoreWork session.store || isRecoveryRequired session.store

/-- The checks on a change of the quota or the reserve of a volume. -/
def quotaRefusal (c : ContainerMountCoordinator σ δ) (call : CommitCall σ)
    (session : SessionState σ) : Option CommitError :=
  if (!call.acceptedReplay && call.prepublicationHook.isNone) ||
      (call.acceptedReplay && call.expectedReplayPreimage.isNone) then
    some .volumeQuotaReserveAcceptedWalBoundaryRequired
  else if !c.requireCheckpointCensus || !c.checkpointCensusInitialized ||
      !session.useCanonicalTransaction then
    some .volumeQuotaReserveCanonicalCensusRequired
  else if c.sessions.any sessionBusy then some .volumeQuotaReserveActiveSessionReservation
  else if c.volumeCheckpointPins.any fun pins => pins.unappliedAcceptedWork &&
      (!call.acceptedReplay || pins.volumeObjectId != call.volumeObjectId) then
    some .volumeQuotaReserveConflictingReplay
  else none

/-- `quota_management`. -/
def quotaManagement (call : CommitCall σ) : Bool :=
  call.mutations.any (·.operation == .setVolumeQuotaReserve)

/-- `source_bound_management`. -/
def sourceBoundManagement (call : CommitCall σ) : Bool :=
  call.mutations.any fun request =>
    request.operation == .repairVolumeFileCount || request.operation == .createSnapshot ||
      request.operation == .deleteSnapshot

/-- The checks on management operations. -/
def managementRefusal (c : ContainerMountCoordinator σ δ) (call : CommitCall σ)
    (session : SessionState σ) : Option CommitError :=
  match if quotaManagement call then c.quotaRefusal call session else none with
  | some error => some error
  | none =>
    if sourceBoundManagement call && c.sessions.any sessionBusy then
      some .nativeManagementActiveSessionReservation
    else none

/-- The checks of `CommitNoLock` before it touches the session. -/
def selectSession (c : ContainerMountCoordinator σ δ) (call : CommitCall σ) :
    Except ContainerCommitResult (SessionState σ) :=
  if c.draining then .error { error := some .containerDraining }
  else if c.recoveryRequired then
    .error { error := some (.containerRecoveryRequired c.recoveryReason)
             commitRecoveryRequired := true }
  else if c.rawSnapshotRecovery.isSome then
    .error { error := some .rawSnapshotRetainedRecoveryRequired }
  else
    match c.findSession call.volumeObjectId with
    | none => .error { error := some .volumeNotMounted }
    | some session =>
      if !session.requestedWrite then
        .error { error := some .volumeNotWritable, commitStatusCode := .notWritable }
      else if call.deferPublication && call.prepublicationHook.isNone then
        .error { error := some .deferredPublicationHookRequired
                 commitStatusCode := .invariantFailed }
      else if c.requireCheckpointCensus && !c.checkpointCensusInitialized then
        .error { error := some .requiredCheckpointCensusIncomplete }
      else
        match if c.requireCheckpointCensus then c.blockingPins call session else none with
        | some pins =>
          .error {
            error := some (if pins.volumeObjectId = call.volumeObjectId
              then .volumeAcceptedRecoveryPending pins.volumeObjectId
              else .siblingAcceptedRecoveryPending pins.volumeObjectId)
            commitStatusCode := .retentionBlocked
            cleanPrepublicationRefusal :=
              !call.acceptedReplay && nativeStagingClean session.store }
        | none =>
          match c.managementRefusal call session with
          | some error => .error { error := some error }
          | none =>
            if hasPendingStoreWork session.store && !c.existingAcceptedPending session then
              .error { error := some .commitUnexpectedPendingState
                       commitStatusCode := .invariantFailed }
            else .ok session

end ContainerMountCoordinator

/-! ## The stages -/

/-- A commit at work: the owner, and the session that the commit has taken out of it. -/
structure Commit (σ δ : Type) where
  owner : ContainerMountCoordinator σ δ
  session : SessionState σ

/-- A stage of the funnel. -/
abbrev Stage (σ δ α : Type) := Funnel (Commit σ δ) ContainerCommitResult α

/-- What the stages share: the arguments and what `CommitNoLock` computed from the state it
found. -/
structure CommitPlan (σ : Type) where
  call : CommitCall σ
  existingAcceptedPending : Bool
  selectedAcceptedOwner : Bool

namespace Commit

/-- The session goes back to the owner. -/
def close (w : Commit σ δ) : ContainerMountCoordinator σ δ := w.owner.putSession w.session

/-- The owner notes what the commit shows. -/
def note (w : Commit σ δ) (event : Event) : Commit σ δ := { w with owner := w.owner.note event }

/-- The store of the session is replaced. -/
def withStore (w : Commit σ δ) (store : σ) : Commit σ δ :=
  { w with session := { w.session with store := store } }

/-- The pins of a volume are replaced. -/
def setPins (w : Commit σ δ) (pins : VolumeCheckpointPins) : Commit σ δ :=
  { w with owner := w.owner.setPins pins }

/-- A publication leaves another store and another device. -/
def advance (w : Commit σ δ) (store : σ) (device : δ) : Commit σ δ :=
  { w.withStore store with owner := { w.owner with device := device } }

/-- The recovery of the container is latched. -/
def latch (w : Commit σ δ) (reason : RecoveryReason) : Commit σ δ :=
  { w with
    owner := { w.owner with
      recoveryRequired := true
      recoveryVolumeObjectId := w.session.volumeObjectId
      recoveryReason := some reason } }

/-- `ReloadSessionForCommitNoLock`. -/
def reload (w : Commit σ δ) (reason : ReloadReason) : Bool × Commit σ δ :=
  match ContainerMountCoordinator.reloadSession w.owner.device w.owner.commitGeneration reason
      w.session with
  | (done, session) =>
    (done, { w with session := session }.note (.reloaded w.session.volumeObjectId))

/-- `can_reuse_prepared_session`. -/
def canReusePreparedSession (w : Commit σ δ) : Bool :=
  w.session.preparedForCommit && w.session.preparedGeneration == w.owner.commitGeneration &&
    w.session.preparedStateEpoch == stateEpoch w.session.store &&
    checkpointXid w.session.store == some w.owner.checkpointXid &&
    !isRecoveryRequired w.session.store

end Commit

/-- The exits of the funnel that give up a batch: the recovery is latched when the store holds
accepted work, else the session is reloaded, and latched when that fails. -/
def rollBack {α : Type} (keep : Bool) (kept failed : RecoveryReason)
    (clean : SessionState σ → Bool) (result : ContainerCommitResult) : Stage σ δ α := fun w =>
  if keep then (w.latch kept, .error { result with commitRecoveryRequired := true })
  else
    match w.reload .rollback with
    | (false, w) => (w.latch failed, .error { result with commitRecoveryRequired := true })
    | (true, w) =>
      (w, .error { result with cleanPrepublicationRefusal := clean w.session })

/-- The choice between the staged view, the prepared session and a reload. -/
def prepareSession (plan : CommitPlan σ) : Stage σ δ Unit := fun w =>
  if plan.existingAcceptedPending then (w, .ok ())
  else if w.canReusePreparedSession then (w, .ok ())
  else
    match w.reload .beforeCommit with
    | (false, w) => (w, .error { error := some .commitCommitterReloadFailed })
    | (true, w) => (w, .ok ())

/-- The first sibling that still holds a checkpoint below the preimage. -/
def siblingCleanupPending (plan : CommitPlan σ) (w : Commit σ δ) (xid : ℕ) :
    Option VolumeCheckpointPins :=
  if !plan.call.acceptedReplay && w.session.useCanonicalTransaction &&
      hasSnapshotTree w.session.store then
    w.owner.volumeCheckpointPins.find? fun pins =>
      pins.volumeObjectId != plan.call.volumeObjectId &&
        match pins.requiredCheckpointXids with
        | [] => false
        | front :: _ => decide (front < xid)
  else none

/-- A reader of the volume keeps a snapshot from being deleted. -/
def readerBusy (plan : CommitPlan σ) (w : Commit σ δ) : Bool :=
  plan.call.mutations.any (·.operation == .deleteSnapshot) &&
    w.owner.snapshotReaders.any (·.volume == plan.call.volumeObjectId)

/-- The checks on the preimage; it goes on with the result so far and the preimage. -/
def checkPreimage (plan : CommitPlan σ) : Stage σ δ (ContainerCommitResult × Option ℕ) := fun w =>
  let preimage := checkpointXid w.session.store
  if plan.call.expectedReplayPreimage.isSome &&
      (!plan.call.acceptedReplay || preimage != plan.call.expectedReplayPreimage) then
    (w, .error { error := some .acceptedReplayPreimageAdvanced })
  else if (plan.call.prepublicationHook.isSome || plan.call.mutationPreparationHook.isSome) &&
      preimage.isNone then
    (w, .error { error := some .commitPreimageCheckpointMissing
                 commitStatusCode := .invariantFailed })
  else
    let result : ContainerCommitResult :=
      { checkpointXid := preimage.getD w.owner.checkpointXid }
    match siblingCleanupPending plan w result.checkpointXid with
    | some pins =>
      (w, .error { result with
        error := some (.siblingCheckpointCleanupPending pins.volumeObjectId)
        commitStatusCode := .retentionBlocked
        cleanPrepublicationRefusal := nativeStagingClean w.session.store })
    | none =>
      if readerBusy plan w then
        (w, .error { result with
          error := some .snapshotRuntimeReaderBusy
          cleanPrepublicationRefusal := nativeStagingClean w.session.store })
      else (w, .ok (result, preimage))

/-- `ContainerPreparedMutationLimit`. -/
def containerPreparedMutationLimit : ℕ := 3

/-- `ContainerPreparedInlineByteLimit`. -/
def containerPreparedInlineByteLimit : ℕ := 17 * 2 ^ 20

/-- `ContainerPreparedPathCharLimit`. -/
def containerPreparedPathCharLimit : ℕ := 32768

/-- The batch of a preparation hook is within its bounds. -/
def preparedBatchBounded (requests : List MutationRequest) : Bool :=
  !requests.isEmpty && decide (requests.length ≤ containerPreparedMutationLimit) &&
    requests.all (fun request =>
      decide (request.path.length ≤ containerPreparedPathCharLimit) &&
        decide (request.secondaryPath.length ≤ containerPreparedPathCharLimit)) &&
    decide ((requests.map (·.inlinePayload.length)).sum ≤ containerPreparedInlineByteLimit)

/-- The store is clean and shows the preimage again. -/
def cleanAt (preimage : Option ℕ) (session : SessionState σ) : Bool :=
  nativeStagingClean session.store && checkpointXid session.store == preimage

/-- The preparation hook; it goes on with `staged_requests`. -/
def prepareBatch (plan : CommitPlan σ) (result : ContainerCommitResult) (preimage : Option ℕ) :
    Stage σ δ (List MutationRequest) := fun w =>
  match plan.call.mutationPreparationHook with
  | none => (w, .ok plan.call.mutations)
  | some hook =>
    let answer := hook w.session.store plan.call.mutations
    let refused : ContainerCommitResult := { result with
      error := some .commitMutationPreparationHookFailed, commitStatusCode := .invariantFailed }
    let giveUp : Stage σ δ (List MutationRequest) :=
      rollBack plan.existingAcceptedPending .partialStageWithAcceptedWork
        .mutationPreparationRollbackFailed
        (fun session => !plan.call.acceptedReplay && cleanAt preimage session) refused
    match answer.tampered with
    | some (store, true) =>
      ((w.withStore store).latch .mutationPreparationIdentityChanged,
        .error { refused with commitRecoveryRequired := true })
    | some (store, false) => giveUp (w.withStore store)
    | none =>
      if answer.prepared && !answer.failed && preparedBatchBounded answer.requests then
        (w, .ok answer.requests)
      else giveUp w

/-- One round of the staging loop. -/
def stageOne (plan : CommitPlan σ) (result : ContainerCommitResult) (preimage : Option ℕ)
    (index : ℕ) (request : MutationRequest) : Stage σ δ (MutationRequest × PayloadIdentity) :=
  fun w =>
  let shown := w.note (.staged w.session.volumeObjectId (checkpointXid w.session.store)
    (publishedXid w.owner.device))
  match stageMutation w.session.store request with
  | (answer, store) =>
    let staged := shown.withStore store
    if answer.status ≠ .applied then
      rollBack plan.existingAcceptedPending .deferredStageFailed .partialStageRollbackFailed
        (fun session => !plan.call.acceptedReplay && plan.call.mutationStagingHook.isNone &&
          cleanAt preimage session)
        { result with
          error := some (.commitStageFailed answer.status)
          mutationStagingStatus := some answer.status
          mutationStagingFailure := some ⟨index, request.operation, request.path,
            request.secondaryPath, request.offset, request.length⟩ } staged
    else
      let bound := { request with expectedUnlinkOutcome := answer.unlinkOutcome }
      match plan.call.mutationStagingHook with
      | none => (staged, .ok (bound, answer.identity))
      | some hook =>
        if hook index bound answer.identity then (staged, .ok (bound, answer.identity))
        else
          rollBack plan.existingAcceptedPending .mutationStagingHookWithAcceptedWork
            .mutationStagingHookRollbackFailed (fun _ => false)
            { result with
              error := some .commitMutationStagingHookFailed
              commitStatusCode := .invariantFailed } staged

/-- The staging loop. -/
def stageFrom (plan : CommitPlan σ) (result : ContainerCommitResult) (preimage : Option ℕ) :
    ℕ → List MutationRequest → Stage σ δ (List (MutationRequest × PayloadIdentity))
  | _, [] => pure []
  | index, request :: rest => do
    let first ← stageOne plan result preimage index request
    let others ← stageFrom plan result preimage (index + 1) rest
    pure (first :: others)

/-! ### Publication and retention cleanup -/

/-- A session publishes its transaction. -/
def Commit.publish (w : Commit σ δ) (canonical : Bool) : CommitStatus × Commit σ δ :=
  match MetadataStore.publish canonical w.owner.device w.session.store
      w.owner.requiredCheckpointXidUnion with
  | (status, store, device) =>
    (status, (w.advance store device).note (.publication w.session.volumeObjectId {
      status := status
      loaded := checkpointXid w.session.store
      published := publishedXid w.owner.device
      required := w.owner.requiredCheckpointXidUnion
      pins := w.owner.volumeCheckpointPins
      readers := w.owner.snapshotReaders.map SnapshotReader.checkpoint }))

/-- `CheckPendingAppleCapacity` of the session. -/
def Commit.checkCapacity (w : Commit σ δ) : CommitStatus × Commit σ δ :=
  match checkPendingAppleCapacity w.session.store w.owner.requiredCheckpointXidUnion with
  | (status, store) => (status, w.withStore store)

/-- What `cleanup_retention` comes to. -/
structure Retention where
  status : CommitStatus
  /-- `retention_cleanup_attempted`. -/
  attempted : Bool
  /-- `retention_cleanup_failure` is not empty. -/
  failed : Bool := false

/-- `allowed_pins`. -/
def allowedPins (current : List ℕ) (preimage : Option ℕ) (hasMutations beforeAcceptance : Bool) :
    List ℕ :=
  if beforeAcceptance && hasMutations then sortUnique (current ++ preimage.toList) else current

/-- The answer of a cleanup is checked; `none` when it is refused. -/
def checkedCleanup (pins : VolumeCheckpointPins) (preimage : Option ℕ)
    (hasMutations beforeAcceptance : Bool) (answer : RetentionAnswer σ) : Option (List ℕ) :=
  if !answer.censusValid || answer.failed || answer.tampered.isSome then none
  else
    match normalizeRequiredCheckpointXids answer.returned (preimage.getD 0) with
    | .error _ => none
    | .ok normalized =>
      let allowed :=
        allowedPins pins.requiredCheckpointXids preimage hasMutations beforeAcceptance
      if !normalized.all (allowed.contains ·) ||
          (hasMutations && (!beforeAcceptance || pins.unappliedAcceptedWork) &&
            !normalized.contains (preimage.getD 0)) then none
      else some normalized

/-- What follows when the cleanup has changed the pins of the volume. -/
def retryAfterCleanup (hasMutations beforeAcceptance : Bool) (w : Commit σ δ) :
    Retention × Commit σ δ :=
  if beforeAcceptance then
    match w.checkCapacity with
    | (status, w) => ({ status := status, attempted := true }, w)
  else
    match w.publish true with
    | (status, w) =>
      if status = .nothingToCommit ∧ hasMutations then
        ({ status := .invariantFailed, attempted := true, failed := true }, w)
      else ({ status := status, attempted := true }, w)

/-- `cleanup_retention`. -/
def cleanUpRetention (plan : CommitPlan σ) (preimage : Option ℕ) (hasMutations : Bool)
    (beforeAcceptance attempted : Bool) (status : CommitStatus) (w : Commit σ δ) :
    Retention × Commit σ δ :=
  if status ≠ .retentionBlocked ∨ !w.session.useCanonicalTransaction ∨ attempted then
    ({ status := status, attempted := attempted }, w)
  else
    match plan.call.retentionCleanupHook with
    | none => ({ status := status, attempted := attempted }, w)
    | some hook =>
      match w.owner.findVolumeCheckpointPins plan.call.volumeObjectId with
      | none =>
        let answer := hook (allowedPins [] preimage hasMutations beforeAcceptance)
        ({ status := .invariantFailed, attempted := true, failed := true },
          w.withStore (answer.tampered.getD w.session.store))
      | some pins =>
        let allowed :=
          allowedPins pins.requiredCheckpointXids preimage hasMutations beforeAcceptance
        let answer := hook allowed
        match checkedCleanup pins preimage hasMutations beforeAcceptance answer with
        | none =>
          ({ status := .invariantFailed, attempted := true, failed := true },
            w.withStore (answer.tampered.getD w.session.store))
        | some normalized =>
          let cleaned := w.note (.cleaned plan.call.volumeObjectId {
            preimage := preimage
            hasMutations := hasMutations
            unappliedAcceptedWork := pins.unappliedAcceptedWork
            before := pins.requiredCheckpointXids
            after := if normalized = allowed then pins.requiredCheckpointXids else normalized })
          if normalized = allowed then ({ status := status, attempted := true }, cleaned)
          else
            retryAfterCleanup hasMutations beforeAcceptance
              (cleaned.setPins { pins with requiredCheckpointXids := normalized })

/-- The capacity check before acceptance; it goes on with `retention_cleanup_attempted`. -/
def checkCapacity (plan : CommitPlan σ) (result : ContainerCommitResult) (preimage : Option ℕ)
    (hasMutations : Bool) : Stage σ δ Bool := fun w =>
  match w.checkCapacity with
  | (status, checked) =>
    match cleanUpRetention plan preimage hasMutations true false status checked with
    | (retention, cleaned) =>
      if retention.status = .nothingToCommit then (cleaned, .ok retention.attempted)
      else
        rollBack (plan.existingAcceptedPending ||
            (plan.call.acceptedReplay && plan.selectedAcceptedOwner))
          .acceptedWorkCapacityAdmissionRefused .capacityAdmissionRollbackFailed
          (fun session => !plan.call.acceptedReplay && plan.call.mutationStagingHook.isNone &&
            cleanAt preimage session)
          { result with
            error := some .commitCapacityAdmissionRefused
            commitStatusCode := retention.status } cleaned

/-! ### Acceptance -/

/-- The checkpoints that a hook leaves pinned: in required mode a hook that failed keeps the
preimage too. -/
def retainedPins (require succeeded : Bool) (preimage : ℕ) (returned : List ℕ) : List ℕ :=
  if require && !succeeded && !returned.contains preimage then returned ++ [preimage]
  else returned

/-- The refusal of a raw snapshot before it is accepted. -/
def refuseRaw (result : ContainerCommitResult) : Stage σ δ Bool :=
  rollBack false .rawSnapshotCapacityRollbackFailed .rawSnapshotCapacityRollbackFailed
    (fun session => nativeStagingClean session.store)
    { result with
      error := some .rawSnapshotBeforeAcceptance, commitStatusCode := .retentionBlocked }

/-- The rollback of a commit whose prepublication hook failed. -/
def refuseHook (plan : CommitPlan σ) (result : ContainerCommitResult) : Stage σ δ Bool :=
  rollBack (plan.call.deferPublication || plan.existingAcceptedPending)
    .deferredPrepublicationHookFailed .prepublicationRollbackFailed (fun _ => false)
    { result with
      error := some .commitPrepublicationHookFailed, commitStatusCode := .invariantFailed }

/-- The prepublication hook; it goes on with `raw_acceptance_completed`. -/
def accept (plan : CommitPlan σ) (result : ContainerCommitResult) (preimage : ℕ)
    (staged : List (MutationRequest × PayloadIdentity)) : Stage σ δ Bool := fun w =>
  match plan.call.prepublicationHook with
  | none => (w, .ok false)
  | some hook =>
    let pins := w.owner.findVolumeCheckpointPins w.session.volumeObjectId
    let answer := hook (staged.map Prod.fst) (staged.map Prod.snd) preimage
      ((pins.map (·.requiredCheckpointXids)).getD [])
    let refusedRaw := plan.call.rawCandidate.isSome && !answer.succeeded &&
      !answer.acceptanceStarted
    let shown := w.note (.hooked w.session.volumeObjectId {
      preimage := preimage
      succeeded := answer.succeeded
      refusedRaw := refusedRaw
      hasMutations := !staged.isEmpty
      hasPendingWork := hasPendingStoreWork w.session.store
      returned := answer.returned })
    if refusedRaw then refuseRaw result shown
    else
      match pins, normalizeRequiredCheckpointXids (retainedPins w.owner.requireCheckpointCensus
          answer.succeeded preimage answer.returned) preimage with
      | some pins, .ok normalized =>
        let pinned := shown.setPins { pins with
          requiredCheckpointXids := sortUnique (pins.requiredCheckpointXids ++ normalized)
          unappliedAcceptedWork :=
            pins.unappliedAcceptedWork || !staged.isEmpty || !answer.succeeded }
        if answer.succeeded then (pinned, .ok plan.call.rawCandidate.isSome)
        else refuseHook plan result pinned
      | _, _ =>
        refuseHook plan { result with commitRecoveryRequired := true }
          (shown.latch .prepublicationPinsInvalid)

/-! ### After the publication -/

/-- What a failed publication does with the session. -/
def recoverPublication (plan : CommitPlan σ) (w : Commit σ δ) : Bool × Commit σ δ :=
  if isRecoveryRequired w.session.store then
    (true, w.latch (.sessionCommitRecoveryRequired (recoveryReason w.session.store)))
  else if plan.existingAcceptedPending || plan.call.prepublicationHook.isSome ||
      (plan.call.acceptedReplay && plan.selectedAcceptedOwner) then
    (true, w.latch .acceptedWorkPublicationFailed)
  else
    match w.reload .rollback with
    | (false, w) => (true, w.latch .cleanCommitRollbackFailed)
    | (true, w) => (false, w)

/-- `accepted_raw_prepublication`. -/
def acceptedRawPrepublication (w : Commit σ δ) (preimage : Option ℕ) (retention : Retention) :
    Bool :=
  w.owner.rawSnapshotRecovery.isNone && w.owner.recoveryRequired &&
    w.owner.recoveryVolumeObjectId == w.session.volumeObjectId &&
    w.owner.recoveryReason == some .acceptedWorkPublicationFailed &&
    retention.status == .persistFailed && publishStageBlocked w.session.store &&
    !isRecoveryRequired w.session.store && preimage.isSome &&
    checkpointXid w.session.store == preimage && !retention.failed

/-- `known_snapshot_failure`. -/
def knownSnapshotFailure (w : Commit σ δ) (failure : StoreFailure) (preimage : Option ℕ)
    (retention : Retention) : Bool :=
  (failure == .appleCommitInterruptedBeforePublish &&
    (!w.owner.recoveryRequired || acceptedRawPrepublication w preimage retention)) ||
  (failure == .appleCommitInterruptedAfterPublish && w.owner.recoveryRequired &&
    w.owner.recoveryVolumeObjectId == w.session.volumeObjectId &&
    w.owner.recoveryReason ==
      some (.sessionCommitRecoveryRequired .appleCommitInterruptedAfterPublish))

/-- The failure of a publication. -/
def failPublication (plan : CommitPlan σ) (result : ContainerCommitResult) (preimage : Option ℕ)
    (rawAcceptanceCompleted : Bool) (retention : Retention) : Stage σ δ ContainerCommitResult :=
  fun w =>
  let failure := lastCommitFailureReason w.session.store
  match recoverPublication plan w with
  | (latched, recovered) =>
    let refused : ContainerCommitResult := { result with
      error := some (if retention.status = .retentionBlocked then .commitRetentionBlocked
        else .commitPersistFailed retention.status)
      commitRecoveryRequired := result.commitRecoveryRequired || latched }
    if rawAcceptanceCompleted && recovered.session.useCanonicalTransaction &&
        knownSnapshotFailure recovered failure preimage retention then
      ({ recovered with owner := { recovered.owner with
          rawSnapshotRecovery := plan.call.rawCandidate
          rawSnapshotRecoveryReason := recovered.owner.recoveryReason } }, .error refused)
    else (recovered, .error refused)

/-- `RecordCommitRangesNoLock` of a session with the legacy writer. -/
def recordCommitRanges (extents : List ExtentRange × List ExtentRange)
    (result : ContainerCommitResult) : Stage σ δ Unit := fun w =>
  if w.session.useCanonicalTransaction then (w, .ok ())
  else
    match applyExtentDelta w.owner.committedRanges (extents.1.filter (·.bytes != 0))
        (extents.2.filter (·.bytes != 0)) with
    | .error reason =>
      (w.latch reason, .error { result with
        committed := true
        error := some .commitLedgerOverlap
        commitStatusCode := .invariantFailed
        commitRecoveryRequired := true })
    | .ok ledger => ({ w with owner := { w.owner with committedRanges := ledger } }, .ok ())

/-- The postpublication verifier. -/
def verifyPublication (plan : CommitPlan σ) (result : ContainerCommitResult)
    (status : CommitStatus) : Stage σ δ Unit := fun w =>
  match plan.call.postpublicationVerifierHook with
  | none => (w, .ok ())
  | some hook =>
    if status ≠ .committed then (w, .ok ())
    else if result.committedXid != 0 &&
        checkpointXid w.session.store == some result.committedXid &&
        !isRecoveryRequired w.session.store && hook w.session.store result.committedXid then
      (w, .ok ())
    else
      (w.latch .commitPostpublicationVerificationFailed, .error { result with
        committed := true
        error := some .commitPostpublicationVerificationFailed
        commitStatusCode := .invariantFailed
        commitRecoveryRequired := true })

/-- The accepted work of the volume is resolved, unless it is replayed. -/
def Commit.resolveAccepted (plan : CommitPlan σ) (w : Commit σ δ) : Commit σ δ :=
  if plan.call.acceptedReplay then w
  else
    match w.owner.findVolumeCheckpointPins plan.call.volumeObjectId with
    | none => w
    | some pins =>
      w.setPins { pins with
        unappliedAcceptedWork := plan.call.retainAcceptedOwnerUntilCleanup }

/-- The generation moves on, and only this session stays prepared. -/
def Commit.bumpGeneration (w : Commit σ δ) : Commit σ δ where
  owner := { w.owner with
    commitGeneration := w.owner.commitGeneration + 1
    sessions := w.owner.sessions.map fun other => { other with
      preparedForCommit := false, preparedGeneration := 0, preparedStateEpoch := 0 } }
  session := { w.session with
    preparedForCommit := true
    preparedGeneration := w.owner.commitGeneration + 1
    preparedStateEpoch := stateEpoch w.session.store }

/-- The completion of a raw snapshot waits for its host. -/
def completeRaw (plan : CommitPlan σ) (result : ContainerCommitResult) (w : Commit σ δ) :
    Commit σ δ × ContainerCommitResult :=
  if plan.call.captureVerifiedPublication w.session.store then
    let latched := w.latch .rawSnapshotHostCompletionPending
    ({ latched with owner := { latched.owner with
        rawSnapshotRecovery := plan.call.rawCandidate
        rawSnapshotRecoveryReason := some .rawSnapshotHostCompletionPending } },
      { result with commitRecoveryRequired := true })
  else
    (w.latch .rawSnapshotPublicationReceiptInvalid,
      { result with commitStatusCode := .invariantFailed, commitRecoveryRequired := true })

/-- What follows a publication that went through. -/
def settle (plan : CommitPlan σ) (result : ContainerCommitResult)
    (rawAcceptanceCompleted : Bool) (status : CommitStatus) :
    Stage σ δ ContainerCommitResult := fun w =>
  let done := { result with committed := true }
  if status ≠ .committed then (w, .ok done)
  else
    let settled := (w.resolveAccepted plan).bumpGeneration
    if rawAcceptanceCompleted then
      match completeRaw plan done settled with
      | (w, result) => (w, .ok result)
    else (settled, .ok done)

/-- The result after the owner has taken the checkpoint of the store. -/
def Commit.raise (w : Commit σ δ) : Commit σ δ :=
  { w with owner := w.owner.raiseCheckpointXid (checkpointXid w.session.store) }

/-- Publication and what follows it. -/
def publishBatch (plan : CommitPlan σ) (result : ContainerCommitResult) (preimage : Option ℕ)
    (hasMutations attempted rawAcceptanceCompleted : Bool) : Stage σ δ ContainerCommitResult :=
  fun w =>
  let extents := pendingExtents w.session.store
  match w.publish w.session.useCanonicalTransaction with
  | (status, published) =>
    match cleanUpRetention plan preimage hasMutations false attempted status published with
    | (retention, cleaned) =>
      let shown : ContainerCommitResult := { result with
        commitStatusCode := retention.status
        committedXid := (lastCommittedXid cleaned.session.store).getD 0
        commitRecoveryRequired := isRecoveryRequired cleaned.session.store }
      if retention.status ≠ .committed ∧ retention.status ≠ .nothingToCommit then
        failPublication plan shown preimage rawAcceptanceCompleted retention cleaned
      else
        let raised := cleaned.raise
        let final := { shown with
          checkpointXid := match checkpointXid cleaned.session.store with
            | some _ => raised.owner.checkpointXid
            | none => shown.checkpointXid }
        (do
          recordCommitRanges extents final
          verifyPublication plan final retention.status
          settle plan final rawAcceptanceCompleted retention.status :
            Stage σ δ ContainerCommitResult) raised

/-- The stages of `CommitNoLock` after its first checks. -/
def commitStages (plan : CommitPlan σ) : Stage σ δ ContainerCommitResult := do
  prepareSession plan
  let (result, preimage) ← checkPreimage plan
  let batch ← prepareBatch plan result preimage
  let staged ← stageFrom plan result preimage 0 batch
  let attempted ← checkCapacity plan result preimage (!staged.isEmpty)
  let identified := { result with stagedIdentities := staged.map Prod.snd }
  let rawAcceptanceCompleted ← accept plan identified (preimage.getD 0) staged
  if plan.call.deferPublication then
    -- The staged view stays for the worker that publishes it later.
    pure { identified with
      acceptedWithoutPublication := true
      commitStatusCode := .committed
      committedXid := preimage.getD 0 }
  else
    publishBatch plan identified preimage (!staged.isEmpty) attempted rawAcceptanceCompleted

/-- `CommitNoLock`. -/
def ContainerMountCoordinator.commitNoLock (c : ContainerMountCoordinator σ δ)
    (call : CommitCall σ) : ContainerCommitResult × ContainerMountCoordinator σ δ :=
  match c.selectSession call with
  | .error result => (result, c)
  | .ok session =>
    match commitStages {
        call := call
        existingAcceptedPending := c.existingAcceptedPending session
        selectedAcceptedOwner := c.unapplied call.volumeObjectId }
      { owner := c, session := session } with
    | (w, .ok result) => (result, w.close)
    | (w, .error result) => (result, w.close)

/-- `Commit`. -/
def ContainerMountCoordinator.commit (c : ContainerMountCoordinator σ δ) (call : CommitCall σ) :
    ContainerCommitResult × ContainerMountCoordinator σ δ :=
  c.commitNoLock { call with rawCandidate := none }

/-- The arguments that `CommitRawSnapshot` hands on. -/
structure RawSnapshotCall (σ : Type) where
  volumeObjectId : ℕ
  mutations : List MutationRequest
  accept : Option
    (List MutationRequest → List PayloadIdentity → ℕ → List ℕ → PrepublicationAnswer)
  prepare : Option (σ → List MutationRequest → PreparationAnswer σ) := none
  verify : Option (σ → ℕ → Bool) := none
  candidate : ℕ
  captureVerifiedPublication : σ → Bool := fun _ => false

/-- The call of `CommitNoLock` that `CommitRawSnapshot` makes. -/
def RawSnapshotCall.commitCall (call : RawSnapshotCall σ) : CommitCall σ where
  volumeObjectId := call.volumeObjectId
  mutations := call.mutations
  prepublicationHook := call.accept
  mutationPreparationHook := call.prepare
  postpublicationVerifierHook := call.verify
  retainAcceptedOwnerUntilCleanup := true
  rawCandidate := some call.candidate
  captureVerifiedPublication := call.captureVerifiedPublication

/-- `CommitRawSnapshot`. -/
def ContainerMountCoordinator.commitRawSnapshot (c : ContainerMountCoordinator σ δ)
    (call : RawSnapshotCall σ) : ContainerCommitResult × ContainerMountCoordinator σ δ :=
  c.commitNoLock call.commitCall

end Coordinator
end ApfsAccess
