import ApfsAccess.Coordinator.Commit

/-!
# Runs of a coordinator

A run is a list of calls, served one after the other: every call holds `commit_mutex_` from
its first to its last line.  The lemmas here say how the small operations on the state and on
a commit act on each of its parts.
-/

namespace ApfsAccess
namespace Coordinator

open MetadataStore ContainerDevice Sorting

variable {σ δ : Type}

namespace ContainerMountCoordinator

/-! ## The table of pins -/

theorem unapplied_setPins_of_ne (c : ContainerMountCoordinator σ δ) (pins : VolumeCheckpointPins)
    {volume : ℕ} (h : volume ≠ pins.volumeObjectId) :
    (c.setPins pins).unapplied volume = c.unapplied volume := by
  unfold unapplied findVolumeCheckpointPins setPins
  dsimp only
  rw [List.find?_map]
  have hsame : ((fun entry : VolumeCheckpointPins => entry.volumeObjectId == volume) ∘
      fun entry => if entry.volumeObjectId = pins.volumeObjectId then pins else entry) =
      fun entry => entry.volumeObjectId == volume := by
    funext entry
    by_cases hentry : entry.volumeObjectId = pins.volumeObjectId
    · simp [hentry]
    · simp [hentry]
  rw [hsame]
  cases hfind : c.volumeCheckpointPins.find? (·.volumeObjectId == volume) with
  | none => rfl
  | some entry =>
    have hvolume : entry.volumeObjectId = volume := by simpa using List.find?_some hfind
    have hentry : ¬ entry.volumeObjectId = pins.volumeObjectId := by rw [hvolume]; exact h
    simp [hentry]

/-- An entry that is found is the one of the volume. -/
theorem findVolumeCheckpointPins_volume {c : ContainerMountCoordinator σ δ} {volume : ℕ}
    {pins : VolumeCheckpointPins} (h : c.findVolumeCheckpointPins volume = some pins) :
    pins.volumeObjectId = volume := by
  simpa using List.find?_some h

/-! ## The sessions -/

theorem findSession_volume {c : ContainerMountCoordinator σ δ} {volume : ℕ}
    {session : SessionState σ} (h : c.findSession volume = some session) :
    session.volumeObjectId = volume := by
  simpa using List.find?_some h

theorem findSession_mem {c : ContainerMountCoordinator σ δ} {volume : ℕ}
    {session : SessionState σ} (h : c.findSession volume = some session) :
    session ∈ c.sessions :=
  List.mem_of_find?_eq_some h

/-- The volumes of the sessions stay when one of them is replaced. -/
theorem putSession_volumes (c : ContainerMountCoordinator σ δ) (session : SessionState σ) :
    (c.putSession session).sessions.map (·.volumeObjectId) =
      c.sessions.map (·.volumeObjectId) := by
  unfold putSession
  rw [List.map_map]
  refine List.map_congr_left fun other _ => ?_
  dsimp only [Function.comp_apply]
  split
  · rename_i hsame
    exact hsame.symm
  · rfl

/-- A session after a replacement is the new one or another volume's. -/
theorem mem_putSession {c : ContainerMountCoordinator σ δ} {session other : SessionState σ}
    (h : other ∈ (c.putSession session).sessions) :
    other = session ∨ other ∈ c.sessions ∧ other.volumeObjectId ≠ session.volumeObjectId := by
  obtain ⟨old, hold, hother⟩ := List.mem_map.mp h
  split at hother
  · exact .inl hother.symm
  · rename_i hne
    subst hother
    exact .inr ⟨hold, hne⟩

end ContainerMountCoordinator

/-! ## Runs -/

variable [ContainerDevice δ] [MetadataStore σ δ]

/-- The calls that a coordinator serves. -/
inductive Request (σ : Type) where
  | initializeCensus (pins : List VolumeCheckpointPins)
  | updateRequired (volume : ℕ) (xids : List ℕ) (unappliedAcceptedWork : Bool)
  | mount (session : ContainerMountCoordinator.VolumeSession)
  | unmount (volume : ℕ)
  | commit (call : CommitCall σ)
  | commitRawSnapshot (call : RawSnapshotCall σ)
  | refreshSession (volume : ℕ)
  | refreshCheckpoint (volume : ℕ)
  | acquireReader (uuid : List Char) (reader : SnapshotReader) (loaded : Bool)
  | releaseReader (index : ℕ)

namespace ContainerMountCoordinator

/-- The state after a call. -/
def serve (c : ContainerMountCoordinator σ δ) : Request σ → ContainerMountCoordinator σ δ
  | .initializeCensus pins => (c.initializeRequiredCheckpointCensus pins).2
  | .updateRequired volume xids unappliedAcceptedWork =>
    (c.updateRequiredCheckpointXids volume xids unappliedAcceptedWork).2
  | .mount session => (c.mountVolume session).2
  | .unmount volume => (c.unmountVolume volume).2
  | .commit call => (c.commit call).2
  | .commitRawSnapshot call => (c.commitRawSnapshot call).2
  | .refreshSession volume => (c.refreshSessionForRecovery volume).2
  | .refreshCheckpoint volume => (c.refreshCheckpointFromSession volume).2
  | .acquireReader uuid reader loaded => (c.acquireSnapshotReader uuid reader loaded).2
  | .releaseReader index => c.releaseSnapshotReader index

/-- The state after a run. -/
def run (c : ContainerMountCoordinator σ δ) (requests : List (Request σ)) :
    ContainerMountCoordinator σ δ :=
  requests.foldl serve c

/-- Every call of a run meets a condition on it and the state that it finds. -/
def Throughout (condition : ContainerMountCoordinator σ δ → Request σ → Prop) :
    ContainerMountCoordinator σ δ → List (Request σ) → Prop
  | _, [] => True
  | c, request :: rest => condition c request ∧ Throughout condition (c.serve request) rest

/-- **What a call keeps under the condition of a run, the run keeps.** -/
theorem run_induction {condition : ContainerMountCoordinator σ δ → Request σ → Prop}
    {Holds : ContainerMountCoordinator σ δ → Prop}
    (step : ∀ c request, Holds c → condition c request → Holds (c.serve request)) :
    ∀ {requests : List (Request σ)} {c : ContainerMountCoordinator σ δ}, Holds c →
      Throughout condition c requests → Holds (c.run requests) := by
  intro requests
  induction requests with
  | nil => exact fun hc _ => hc
  | cons request rest ih =>
    intro c hc hrun
    exact ih (step c request hc hrun.1) hrun.2

/-! ## The first checks of a commit -/

/-- What holds when `CommitNoLock` goes on to the session. -/
structure Selected (c : ContainerMountCoordinator σ δ) (call : CommitCall σ)
    (session : SessionState σ) : Prop where
  recovery : c.recoveryRequired = false
  raw : c.rawSnapshotRecovery = none
  found : c.findSession call.volumeObjectId = some session
  write : session.requestedWrite = true
  hook : call.deferPublication = true → call.prepublicationHook ≠ none
  initialized : c.requireCheckpointCensus = true → c.checkpointCensusInitialized = true
  unblocked : c.requireCheckpointCensus = true → c.blockingPins call session = none
  managed : c.managementRefusal call session = none
  pending : hasPendingStoreWork session.store = true → c.existingAcceptedPending session = true

omit [ContainerDevice δ] in
theorem selectSession_ok {c : ContainerMountCoordinator σ δ} {call : CommitCall σ}
    {session : SessionState σ} (h : c.selectSession call = .ok session) :
    Selected c call session := by
  unfold selectSession at h
  by_cases hdraining : c.draining = true
  · rw [if_pos hdraining] at h
    cases h
  rw [if_neg hdraining] at h
  by_cases hrecovery : c.recoveryRequired = true
  · rw [if_pos hrecovery] at h
    cases h
  rw [if_neg hrecovery] at h
  by_cases hraw : c.rawSnapshotRecovery.isSome = true
  · rw [if_pos hraw] at h
    cases h
  rw [if_neg hraw] at h
  cases hfound : c.findSession call.volumeObjectId with
  | none =>
    rw [hfound] at h
    cases h
  | some found =>
    rw [hfound] at h
    dsimp only at h
    by_cases hwrite : (!found.requestedWrite) = true
    · rw [if_pos hwrite] at h
      cases h
    rw [if_neg hwrite] at h
    by_cases hdefer : (call.deferPublication && call.prepublicationHook.isNone) = true
    · rw [if_pos hdefer] at h
      cases h
    rw [if_neg hdefer] at h
    by_cases hcensus : (c.requireCheckpointCensus && !c.checkpointCensusInitialized) = true
    · rw [if_pos hcensus] at h
      cases h
    rw [if_neg hcensus] at h
    cases hblocked : (if c.requireCheckpointCensus = true then c.blockingPins call found
        else none) with
    | some pins =>
      rw [hblocked] at h
      cases h
    | none =>
      rw [hblocked] at h
      dsimp only at h
      cases hmanaged : c.managementRefusal call found with
      | some error =>
        rw [hmanaged] at h
        cases h
      | none =>
        rw [hmanaged] at h
        dsimp only at h
        by_cases hpending : (hasPendingStoreWork found.store &&
            !c.existingAcceptedPending found) = true
        · rw [if_pos hpending] at h
          cases h
        rw [if_neg hpending] at h
        cases h
        refine ⟨by simpa using hrecovery, by simpa using hraw, hfound, by simpa using hwrite,
          ?_, ?_, ?_, hmanaged, ?_⟩
        · intro hd hnone
          simp [hd, hnone] at hdefer
        · intro hrequire
          simpa [hrequire] using hcensus
        · intro hrequire
          simpa [hrequire] using hblocked
        · intro hwork
          simpa [hwork] using hpending

/-- A commit that is not stopped by its first checks closes what its stages leave. -/
theorem commitNoLock_cases {Q : ContainerMountCoordinator σ δ → Prop}
    {c : ContainerMountCoordinator σ δ} {call : CommitCall σ} (hrefused : Q c)
    (hstages : ∀ session, Selected c call session →
      Funnel.Ends (fun w _ => Q w.close) (fun w _ => Q w.close)
        (commitStages {
            call := call
            existingAcceptedPending := c.existingAcceptedPending session
            selectedAcceptedOwner := c.unapplied call.volumeObjectId }
          { owner := c, session := session })) :
    Q (c.commitNoLock call).2 := by
  unfold commitNoLock
  cases hselect : c.selectSession call with
  | error result => exact hrefused
  | ok session =>
    have hends := hstages session (selectSession_ok hselect)
    dsimp only
    revert hends
    rcases commitStages _ _ with ⟨w, result | result⟩
    · exact fun hends => hends
    · exact fun hends => hends

end ContainerMountCoordinator

/-! ## Reloading -/

omit [ContainerDevice δ] in
/-- **The session after a reload**: it keeps its volume, and its store is what
`PrepareNativeWritePath` leaves. -/
theorem Commit.reload_shape (w : Commit σ δ) (reason : ReloadReason) :
    ∃ session : SessionState σ, (w.reload reason).2 =
        { w with session := session }.note (.reloaded w.session.volumeObjectId) ∧
      session.volumeObjectId = w.session.volumeObjectId ∧
      ((w.reload reason).1 = true →
        prepareNativeWritePath w.owner.device w.session.store = (true, session.store)) ∧
      ((w.reload reason).1 = false → session.preparedForCommit = false ∧
        prepareNativeWritePath w.owner.device w.session.store = (false, session.store)) := by
  unfold Commit.reload ContainerMountCoordinator.reloadSession
  cases hprepare : prepareNativeWritePath w.owner.device w.session.store with
  | mk done store =>
    cases done with
    | true => exact ⟨_, rfl, rfl, fun _ => rfl, fun h => absurd h (by simp)⟩
    | false => exact ⟨_, rfl, rfl, fun h => absurd h (by simp), fun _ => ⟨rfl, rfl⟩⟩

end Coordinator
end ApfsAccess
