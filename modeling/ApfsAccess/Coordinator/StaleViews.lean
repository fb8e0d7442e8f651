import ApfsAccess.Coordinator.Freshness

/-!
# Runs without stale views

The invariant `Followed` over whole runs.  Calls other than commits keep it as they are; a
commit keeps it when it is not the replay that `ReplaysAlone` excludes.  The last part is a run
with such a replay, in which the next commit stages on a checkpoint that the device has left.
-/

namespace ApfsAccess
namespace Coordinator

open MetadataStore ContainerDevice Sorting ContainerMountCoordinator Funnel

variable {σ δ : Type} [ContainerDevice δ] [MetadataStore σ δ]
  {c : ContainerMountCoordinator σ δ} {volume : ℕ} {w : Commit σ δ}

/-! ## Closing a commit -/

theorem Commit.Closable.followed (h : w.Closable volume) : Followed w.close where
  required := h.sound.required
  shown := h.sound.shown
  distinct := by
    unfold Commit.close
    rw [putSession_volumes]
    exact h.sound.distinct
  fresh := by
    intro hrecovery session hsession hwrite
    obtain ⟨hothers, hown⟩ := h.fresh hrecovery
    rcases mem_putSession hsession with rfl | ⟨hold, hne⟩
    · exact hown
    · exact hothers session hold hne hwrite
  uncensused := by
    intro hinitialized
    exact absurd (h.sound.initialized.symm.trans hinitialized) (by decide)

/-! ## Commits -/

omit [ContainerDevice δ] in
/-- **The gate leaves a commit alone**: no other session has accepted work staged. -/
theorem ContainerMountCoordinator.Selected.alone {call : CommitCall σ} {session : SessionState σ}
    (h : Selected c call session) (hrequired : c.requireCheckpointCensus = true)
    (halone : ReplaysAlone c call) : (Commit.mk c session).Alone := by
  intro other hother hne _ hflag
  have hvolume := findSession_volume h.found
  dsimp only at hne hflag
  unfold ContainerMountCoordinator.unapplied at hflag
  cases hpins : c.findVolumeCheckpointPins other.volumeObjectId with
  | none =>
    rw [hpins] at hflag
    cases hflag
  | some pins =>
    rw [hpins] at hflag
    dsimp only at hflag
    have hentry := findVolumeCheckpointPins_volume hpins
    have hunblocked := List.find?_eq_none.mp (h.unblocked hrequired) pins
      (List.mem_of_find?_eq_some hpins)
    have hother' : pins.volumeObjectId ≠ call.volumeObjectId := by
      rw [hentry, ← hvolume]
      exact hne
    have hreplay : (call.acceptedReplay && c.unapplied call.volumeObjectId) = true := by
      simpa [hflag, hother'] using hunblocked
    rw [Bool.and_eq_true] at hreplay
    have hstaged := List.any_eq_false.mp (halone hreplay.1 hreplay.2) other hother
    have hunapplied : c.unapplied other.volumeObjectId = true := by
      unfold ContainerMountCoordinator.unapplied
      rw [hpins]
      exact hflag
    have hne' : other.volumeObjectId ≠ call.volumeObjectId := by rwa [← hvolume]
    simpa [hne', existingAcceptedPending, hunapplied] using hstaged

variable [LawfulMetadataStore σ δ]

/-- **A commit keeps the sessions in step with the device.** -/
theorem Followed.commitNoLock (h : Followed c) {call : CommitCall σ}
    (halone : ReplaysAlone c call) : Followed (c.commitNoLock call).2 := by
  refine commitNoLock_cases h fun session hselected => ?_
  have hvolume := findSession_volume hselected.found
  have hmem := findSession_mem hselected.found
  have hfresh := h.fresh hselected.recovery
  have hsound : (Commit.mk c session).Sound call.volumeObjectId :=
    ⟨h.required, hselected.initialized h.required, h.shown, h.distinct,
      hselected.alone h.required halone, hvolume⟩
  have hstarted : (Commit.mk c session).Started {
      call := call
      existingAcceptedPending := c.existingAcceptedPending session
      selectedAcceptedOwner := c.unapplied call.volumeObjectId } call.volumeObjectId := by
    refine ⟨⟨hsound, fun other hother _ hwrite => hfresh other hother hwrite⟩,
      hfresh session hmem hselected.write, rfl, fun hexisting => ?_⟩
    by_contra hpending
    have hpending' := hselected.pending (by simpa using hpending)
    exact absurd (hexisting.symm.trans hpending') (by decide)
  have hends := commitStages_meets rfl (Commit.mk c session) hstarted
  revert hends
  rcases commitStages _ _ with ⟨w, result | result⟩
  · exact fun hends => hends.followed
  · exact fun hends => hends.followed

/-! ## The other calls -/

omit [LawfulMetadataStore σ δ] in
theorem Followed.initialize (h : Followed c) (pins : List VolumeCheckpointPins) :
    Followed (c.initializeRequiredCheckpointCensus pins).2 := by
  unfold initializeRequiredCheckpointCensus
  split
  · exact h
  · split
    · exact h
    · rename_i hinitialized
      split
      · exact h
      · dsimp only
        split
        · exact h
        · split
          · exact h
          · refine ⟨h.required, h.shown, h.distinct, ?_, fun hfalse => absurd hfalse (by simp)⟩
            intro hrecovery session hsession hwrite
            exact ⟨(h.fresh hrecovery session hsession hwrite).1, fun _ =>
              h.uncensused (by simpa using hinitialized) hrecovery session hsession hwrite⟩

theorem Followed.mount (h : Followed c) (session : VolumeSession) :
    Followed (c.mountVolume session).2 := by
  unfold mountVolume
  split
  · exact h
  · split
    · exact h
    · split
      · exact h
      · split
        · exact h
        · rename_i hmounted
          split
          · exact h
          · split
            · exact h
            · split
              · exact h
              · split
                · exact h
                · rename_i store hload
                  -- The new session is unprepared, and a writer has loaded what the device shows.
                  have hcurrent : session.requestedWrite = true →
                      MetadataStore.checkpointXid store = some (publishedXid c.device) := by
                    intro hwrite
                    rw [hwrite] at hload
                    exact LawfulMetadataStore.load_xid hload
                  have hraised : Followed (c.raiseCheckpointXid
                      (MetadataStore.checkpointXid store)) := by
                    unfold raiseCheckpointXid
                    split
                    · exact ⟨h.required, h.shown, h.distinct, h.fresh, h.uncensused⟩
                    · exact h
                  have hsessions : (c.raiseCheckpointXid
                      (MetadataStore.checkpointXid store)).sessions = c.sessions := by
                    unfold raiseCheckpointXid
                    split <;> rfl
                  have hdevice : (c.raiseCheckpointXid
                      (MetadataStore.checkpointXid store)).device = c.device := by
                    unfold raiseCheckpointXid
                    split <;> rfl
                  refine ⟨hraised.required, hraised.shown, ?_, ?_, ?_⟩
                  · dsimp only
                    rw [List.map_append, hsessions]
                    refine List.nodup_append.mpr ⟨h.distinct, by simp, ?_⟩
                    intro mounted hold new hnew
                    obtain ⟨other, hother, rfl⟩ := List.mem_map.mp hold
                    have hnew' : new = session.volumeObjectId := by simpa using hnew
                    have hdistinct := List.any_eq_false.mp (Bool.not_eq_true _ ▸ hmounted)
                      other hother
                    rw [hnew']
                    simpa using hdistinct
                  · intro hrecovery other hother hwrite
                    rcases List.mem_append.mp hother with hold | hnew
                    · exact hraised.fresh hrecovery other hold hwrite
                    · obtain rfl := List.mem_singleton.mp hnew
                      refine ⟨fun hprepared => absurd hprepared (by simp), fun _ _ => ?_⟩
                      exact (hcurrent hwrite).trans (by rw [hdevice])
                  · intro hinitialized hrecovery other hother hwrite hpending
                    rcases List.mem_append.mp hother with hold | hnew
                    · exact hraised.uncensused hinitialized hrecovery other hold hwrite hpending
                    · obtain rfl := List.mem_singleton.mp hnew
                      exact (hcurrent hwrite).trans (by rw [hdevice])

omit [LawfulMetadataStore σ δ] in
theorem Followed.unmount (h : Followed c) (volume : ℕ) :
    Followed (c.unmountVolume volume).2 := by
  unfold unmountVolume
  split
  · exact h
  · split
    · have hsub : (c.sessions.eraseP (·.volumeObjectId == volume)).Sublist c.sessions :=
        List.eraseP_sublist
      refine ⟨h.required, h.shown, h.distinct.sublist (hsub.map _), ?_, ?_⟩
      · exact fun hrecovery session hsession => h.fresh hrecovery session (hsub.subset hsession)
      · exact fun hinitialized hrecovery session hsession =>
          h.uncensused hinitialized hrecovery session (hsub.subset hsession)
    · exact h

omit [LawfulMetadataStore σ δ] in
/-- A session may be replaced by one that follows the device. -/
theorem Followed.putSession (h : Followed c) {session : SessionState σ} (hvolume : Event)
    (hevent : hvolume.OnCurrent)
    (hunprepared : c.recoveryRequired = false → session.Fresh c.device c.commitGeneration
      (c.unapplied session.volumeObjectId))
    (hpending : hasPendingStoreWork session.store = true → session.Current c.device) :
    Followed ((c.putSession session).note hvolume) := by
  refine ⟨h.required, ?_, ?_, ?_, ?_⟩
  · intro event hevent'
    rcases List.mem_cons.mp hevent' with rfl | hold
    · exact hevent
    · exact h.shown event hold
  · exact (putSession_volumes c session).symm ▸ h.distinct
  · intro hrecovery other hother hwrite
    rcases mem_putSession hother with rfl | ⟨hold, -⟩
    · exact hunprepared hrecovery
    · exact h.fresh hrecovery other hold hwrite
  · intro hinitialized hrecovery other hother hwrite hwork
    rcases mem_putSession hother with rfl | ⟨hold, -⟩
    · exact hpending hwork
    · exact h.uncensused hinitialized hrecovery other hold hwrite hwork

theorem Followed.refreshSession (h : Followed c) (volume : ℕ) :
    Followed (c.refreshSessionForRecovery volume).2 := by
  unfold refreshSessionForRecovery
  split
  · exact h
  · split
    · exact h
    · rename_i session hsession
      split
      · exact h
      · rename_i hidle
        have hidle' : hasPendingStoreWork session.store = false := by simpa using hidle
        unfold reloadSession
        cases hprepare : prepareNativeWritePath c.device session.store with
        | mk done store =>
          cases done with
          | true =>
            have hcurrent := LawfulMetadataStore.prepare_xid hprepare
            exact h.putSession _ trivial (fun _ => ⟨fun _ _ => hcurrent, fun _ _ => hcurrent⟩)
              fun _ => hcurrent
          | false =>
            have hpending := LawfulMetadataStore.prepare_failed hprepare hidle'
            refine h.putSession _ trivial (fun _ => ⟨?_, fun _ => hpending⟩) hpending
            exact fun hprepared => absurd hprepared (by simp)

omit [LawfulMetadataStore σ δ] in
theorem Followed.refreshCheckpoint (h : Followed c) (volume : ℕ) :
    Followed (c.refreshCheckpointFromSession volume).2 := by
  unfold refreshCheckpointFromSession
  split
  · exact h
  · rename_i session _
    have hraised : Followed (c.raiseCheckpointXid (MetadataStore.checkpointXid session.store)) := by
      unfold raiseCheckpointXid
      split
      · exact ⟨h.required, h.shown, h.distinct, h.fresh, h.uncensused⟩
      · exact h
    refine ⟨hraised.required, hraised.shown, ?_, ?_, ?_⟩
    · dsimp only
      rw [List.map_map]
      exact hraised.distinct
    · intro hrecovery other hother hwrite
      obtain ⟨old, hold, rfl⟩ := List.mem_map.mp hother
      exact ⟨fun hprepared => absurd hprepared (by simp),
        (hraised.fresh hrecovery old hold hwrite).2⟩
    · intro hinitialized hrecovery other hother hwrite hpending
      obtain ⟨old, hold, rfl⟩ := List.mem_map.mp hother
      exact hraised.uncensused hinitialized hrecovery old hold hwrite hpending

omit [LawfulMetadataStore σ δ] in
theorem Followed.readers (h : Followed c) (readers : List SnapshotReader) :
    Followed { c with snapshotReaders := readers } :=
  ⟨h.required, h.shown, h.distinct, h.fresh, h.uncensused⟩

/-! ## Runs -/

/-- The calls of a run: the census is not updated, and every commit meets the condition. -/
def KeepsViews (c : ContainerMountCoordinator σ δ) : Request σ → Prop
  | .updateRequired .. => False
  | .commit call => ReplaysAlone c call
  | _ => True

theorem Followed.serve {request : Request σ} (h : Followed c) (hkeeps : KeepsViews c request) :
    Followed (c.serve request) := by
  cases request with
  | initializeCensus pins => exact h.initialize pins
  | updateRequired volume xids unapplied => exact hkeeps.elim
  | mount session => exact h.mount session
  | unmount volume => exact h.unmount volume
  | commit call => exact h.commitNoLock hkeeps
  | commitRawSnapshot call => exact h.commitNoLock fun hreplay => absurd hreplay Bool.false_ne_true
  | refreshSession volume => exact h.refreshSession volume
  | refreshCheckpoint volume => exact h.refreshCheckpoint volume
  | acquireReader uuid reader loaded =>
    change Followed (c.acquireSnapshotReader uuid reader loaded).2
    unfold acquireSnapshotReader
    split
    · exact h
    · split
      · exact h
      · split
        · exact h
        · split
          · exact h
          · exact h.readers _
  | releaseReader index => exact h.readers _

omit [LawfulMetadataStore σ δ] in
theorem followed_opened (uuid : List Char) (catalog : List ℕ) (device : δ) :
    Followed (opened uuid catalog true device : ContainerMountCoordinator σ δ) := by
  refine ⟨rfl, ?_, List.nodup_nil, ?_, ?_⟩
  · exact fun event hevent => absurd hevent (List.not_mem_nil)
  · exact fun _ session hsession => absurd hsession (List.not_mem_nil)
  · exact fun _ _ session hsession => absurd hsession (List.not_mem_nil)

/-- **No commit works on a stale view**: in a run in which no volume is replayed while another
one has accepted work staged, every mutation is staged and every transaction published on a
store that has loaded the checkpoint last published on the device. -/
theorem commits_work_on_current_views (uuid : List Char) (catalog : List ℕ) (device : δ)
    (requests : List (Request σ))
    (hrun : Throughout KeepsViews (opened uuid catalog true device) requests) :
    ∀ event ∈ (run (opened uuid catalog true device) requests).trace, event.OnCurrent :=
  (run_induction (fun _ _ h hkeeps => h.serve hkeeps) (followed_opened uuid catalog device)
    hrun).shown

/-! ## A replay that leaves a staged view behind -/

/-- A hook that accepts and keeps the pins that it is given. -/
def acceptingHook (_ : List MutationRequest) (_ : List PayloadIdentity) (_ : ℕ)
    (pins : List ℕ) : PrepublicationAnswer :=
  { succeeded := true, returned := pins }

/-- A container with two volumes at checkpoint 10 that both have accepted work from before a
crash, mounted for writing. -/
def twoVolumes : List (Request PlainStore) :=
  [.initializeCensus [⟨1, [10], true⟩, ⟨2, [10], true⟩],
    .mount { volumeObjectId := 1, requestedWrite := true, useCanonicalTransaction := true },
    .mount { volumeObjectId := 2, requestedWrite := true, useCanonicalTransaction := true }]

/-- A mutation of a volume is accepted again, and its publication deferred. -/
def deferredReplay (volume : ℕ) : CommitCall PlainStore where
  volumeObjectId := volume
  mutations := [{}]
  prepublicationHook := some acceptingHook
  acceptedReplay := true
  deferPublication := true

/-- A mutation of a volume is replayed and published. -/
def replay (volume : ℕ) : CommitCall PlainStore where
  volumeObjectId := volume
  mutations := [{}]
  acceptedReplay := true

/-- The first volume defers, the second publishes, and the first goes on. -/
def replaysCross : List (Request PlainStore) :=
  twoVolumes ++ [.commit (deferredReplay 1), .commit (replay 2), .commit (replay 1)]

/-- The third commit stages on checkpoint 10 while the device shows 11. -/
theorem replaysCross_stale :
    ¬ ∀ event ∈ (run (opened [] [1, 2] true (10 : ℕ)) replaysCross).trace, event.OnCurrent := by
  decide +kernel

/-- The first volume defers and publishes, and then the second. -/
def replaysInTurn : List (Request PlainStore) :=
  twoVolumes ++ [.commit (deferredReplay 1), .commit (replay 1), .commit (replay 2)]

/-- All the work a trace records was done on a current view. -/
def WorksOnCurrent (trace : List Event) : Prop := ∀ event ∈ trace, event.OnCurrent

theorem replaysInTurn_current :
    WorksOnCurrent (run (opened [] [1, 2] true (10 : ℕ)) replaysInTurn).trace := by
  refine commits_work_on_current_views [] [1, 2] 10 replaysInTurn ?_
  refine ⟨trivial, trivial, trivial, ?_, ?_, ?_, trivial⟩
  all_goals exact fun _ _ => by decide +kernel

end Coordinator
end ApfsAccess
