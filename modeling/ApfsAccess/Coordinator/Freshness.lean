import ApfsAccess.Coordinator.Runs

/-!
# No commit works on a stale view

Every call of `StageMutation` and every publication is noted with the checkpoint that the store
has loaded and the one that the device shows.  A commit gets to them with a store that it has
reloaded, with a session that the last publication left prepared, or with accepted work that an
earlier commit left staged.  The first two follow the device: a publication moves the
generation, or latches the recovery of the container.  The third does so as long as no other
volume publishes, and the unapplied accepted work of a volume keeps all others from
publishing, with one exception: an accepted replay of a volume that has unapplied accepted
work itself.  Such a replay leaves the staged view of another volume behind the device.
-/

namespace ApfsAccess
namespace Coordinator

open MetadataStore ContainerDevice Sorting ContainerMountCoordinator Funnel

/-- A store was used with the checkpoint that the device showed. -/
def Event.OnCurrent : Event → Prop
  | .staged _ loaded published => loaded = some published
  | .publication _ call => call.loaded = some call.published
  | _ => True

instance : DecidablePred Event.OnCurrent := fun event => by
  cases event <;> unfold Event.OnCurrent <;> infer_instance

variable {σ δ : Type} [ContainerDevice δ] [MetadataStore σ δ]

/-! ## Sessions that follow the device -/

/-- The store of the session has loaded what the device shows. -/
def SessionState.Current (device : δ) (session : SessionState σ) : Prop :=
  checkpointXid session.store = some (publishedXid device)

/-- A commit of the session that does not reload works on a current view. -/
def SessionState.Fresh (device : δ) (generation : ℕ) (unapplied : Bool)
    (session : SessionState σ) : Prop :=
  (session.preparedForCommit = true → session.preparedGeneration = generation →
      session.Current device) ∧
    (unapplied = true → hasPendingStoreWork session.store = true → session.Current device)

/-- What holds of a coordinator between two calls. -/
structure Followed (c : ContainerMountCoordinator σ δ) : Prop where
  required : c.requireCheckpointCensus = true
  shown : ∀ event ∈ c.trace, event.OnCurrent
  distinct : (c.sessions.map (·.volumeObjectId)).Nodup
  fresh : c.recoveryRequired = false → ∀ session ∈ c.sessions, session.requestedWrite = true →
    session.Fresh c.device c.commitGeneration (c.unapplied session.volumeObjectId)
  -- Before the census a load can have failed half way, and the census may then flag the volume.
  uncensused : c.checkpointCensusInitialized = false → c.recoveryRequired = false →
    ∀ session ∈ c.sessions, session.requestedWrite = true →
      hasPendingStoreWork session.store = true → session.Current c.device

/-- Another session holds accepted work that is staged. -/
def ContainerMountCoordinator.siblingStaged (c : ContainerMountCoordinator σ δ) (volume : ℕ) :
    Bool :=
  c.sessions.any fun session =>
    session.volumeObjectId != volume && c.existingAcceptedPending session

/-- **The condition**: a volume with unapplied accepted work is not replayed while another
volume has accepted work staged. -/
def ReplaysAlone (c : ContainerMountCoordinator σ δ) (call : CommitCall σ) : Prop :=
  call.acceptedReplay = true → c.unapplied call.volumeObjectId = true →
    c.siblingStaged call.volumeObjectId = false

/-! ## A commit at work -/

/-- The other sessions follow the device. -/
def Commit.OthersFresh (w : Commit σ δ) : Prop :=
  ∀ session ∈ w.owner.sessions, session.volumeObjectId ≠ w.session.volumeObjectId →
    session.requestedWrite = true →
      session.Fresh w.owner.device w.owner.commitGeneration
        (w.owner.unapplied session.volumeObjectId)

/-- No other session has accepted work staged. -/
def Commit.Alone (w : Commit σ δ) : Prop :=
  ∀ session ∈ w.owner.sessions, session.volumeObjectId ≠ w.session.volumeObjectId →
    session.requestedWrite = true → w.owner.unapplied session.volumeObjectId = true →
      hasPendingStoreWork session.store = false

/-- What no stage of a commit of the volume touches, and what the commit has shown so far. -/
structure Commit.Sound (volume : ℕ) (w : Commit σ δ) : Prop where
  required : w.owner.requireCheckpointCensus = true
  initialized : w.owner.checkpointCensusInitialized = true
  shown : ∀ event ∈ w.owner.trace, event.OnCurrent
  distinct : (w.owner.sessions.map (·.volumeObjectId)).Nodup
  alone : w.Alone
  volume : w.session.volumeObjectId = volume

/-- The other sessions follow the device, and nothing is known of this one. -/
structure Commit.Steady (volume : ℕ) (w : Commit σ δ) : Prop where
  sound : w.Sound volume
  others : w.OthersFresh

/-- The session has loaded what the device shows. -/
structure Commit.AtWork (volume : ℕ) (w : Commit σ δ) : Prop where
  steady : w.Steady volume
  current : w.session.Current w.owner.device

/-- The commit may end here. -/
structure Commit.Closable (volume : ℕ) (w : Commit σ δ) : Prop where
  sound : w.Sound volume
  fresh : w.owner.recoveryRequired = false → w.OthersFresh ∧
    w.session.Fresh w.owner.device w.owner.commitGeneration
      (w.owner.unapplied w.session.volumeObjectId)

variable {volume : ℕ} {w : Commit σ δ}

theorem Commit.AtWork.closable (h : w.AtWork volume) : w.Closable volume :=
  ⟨h.steady.sound, fun _ => ⟨h.steady.others, fun _ _ => h.current, fun _ _ => h.current⟩⟩

/-! ### What the small operations keep -/

omit [ContainerDevice δ] in
theorem Commit.Sound.note (h : w.Sound volume) (event : Event) (hevent : event.OnCurrent) :
    (w.note event).Sound volume := by
  refine ⟨h.required, h.initialized, ?_, h.distinct, h.alone, h.volume⟩
  intro other hother
  rcases List.mem_cons.mp hother with rfl | hother
  · exact hevent
  · exact h.shown other hother

theorem Commit.Steady.note (h : w.Steady volume) (event : Event) (hevent : event.OnCurrent) :
    (w.note event).Steady volume :=
  ⟨h.sound.note event hevent, h.others⟩

theorem Commit.AtWork.note (h : w.AtWork volume) (event : Event) (hevent : event.OnCurrent) :
    (w.note event).AtWork volume :=
  ⟨h.steady.note event hevent, h.current⟩

theorem Commit.Steady.withStore (h : w.Steady volume) (store : σ) :
    (w.withStore store).Steady volume :=
  ⟨⟨h.sound.required, h.sound.initialized, h.sound.shown, h.sound.distinct, h.sound.alone,
    h.sound.volume⟩, h.others⟩

theorem Commit.AtWork.withStore (h : w.AtWork volume) (store : σ)
    (hstore : checkpointXid store = checkpointXid w.session.store) :
    (w.withStore store).AtWork volume :=
  ⟨h.steady.withStore store, hstore.trans h.current⟩

theorem Commit.Sound.latch (h : w.Sound volume) (reason : RecoveryReason) :
    (w.latch reason).Closable volume :=
  ⟨⟨h.required, h.initialized, h.shown, h.distinct, h.alone, h.volume⟩,
    fun hlatched => absurd hlatched (by simp [Commit.latch])⟩

theorem Commit.Steady.latch (h : w.Steady volume) (reason : RecoveryReason) :
    (w.latch reason).Steady volume :=
  ⟨(h.sound.latch reason).sound, h.others⟩

/-- The pins of the volume are its own business. -/
theorem Commit.Steady.setPins (h : w.Steady volume) (pins : VolumeCheckpointPins)
    (hpins : pins.volumeObjectId = volume) :
    (w.setPins pins).Steady volume := by
  have hunapplied : ∀ session ∈ w.owner.sessions,
      session.volumeObjectId ≠ w.session.volumeObjectId →
        (w.setPins pins).owner.unapplied session.volumeObjectId =
          w.owner.unapplied session.volumeObjectId := by
    intro session _ hne
    rw [h.sound.volume, ← hpins] at hne
    exact unapplied_setPins_of_ne _ _ hne
  refine ⟨⟨h.sound.required, h.sound.initialized, h.sound.shown, h.sound.distinct, ?_,
    h.sound.volume⟩, ?_⟩
  · intro session hsession hne hwrite hflag
    rw [hunapplied session hsession hne] at hflag
    exact h.sound.alone session hsession hne hwrite hflag
  · intro session hsession hne hwrite
    have hfresh := h.others session hsession hne hwrite
    rw [← hunapplied session hsession hne] at hfresh
    exact hfresh

theorem Commit.AtWork.setPins (h : w.AtWork volume) (pins : VolumeCheckpointPins)
    (hpins : pins.volumeObjectId = volume) :
    (w.setPins pins).AtWork volume :=
  ⟨h.steady.setPins pins hpins, h.current⟩

/-! ### Reloading -/

variable [LawfulMetadataStore σ δ]

/-- **What a reload does**: after a success the session shows the device and has nothing
pending; after a failure it is unprepared. -/
theorem Commit.reload_eq (w : Commit σ δ) (reason : ReloadReason) :
    ∃ session : SessionState σ, (w.reload reason).2 =
        { w with session := session }.note (.reloaded w.session.volumeObjectId) ∧
      session.volumeObjectId = w.session.volumeObjectId ∧
      ((w.reload reason).1 = true → session.Current w.owner.device ∧
        hasPendingStoreWork session.store = false) ∧
      ((w.reload reason).1 = false → session.preparedForCommit = false ∧
        (hasPendingStoreWork w.session.store = false →
          hasPendingStoreWork session.store = true → session.Current w.owner.device)) := by
  obtain ⟨session, hreload, hvolume, hdone, hfailed⟩ := w.reload_shape reason
  refine ⟨session, hreload, hvolume, fun h => ?_, fun h => ?_⟩
  · have hprepare := hdone h
    exact ⟨LawfulMetadataStore.prepare_xid hprepare, LawfulMetadataStore.prepare_pending hprepare⟩
  · exact ⟨(hfailed h).1, LawfulMetadataStore.prepare_failed (hfailed h).2⟩

theorem Commit.Steady.reload (h : w.Steady volume) (reason : ReloadReason) :
    (w.reload reason).2.Steady volume := by
  obtain ⟨session, hreload, hvolume, -⟩ := w.reload_eq reason
  rw [hreload]
  have halone : ({ w with session := session } : Commit σ δ).Alone := by
    intro other hother hne
    exact h.sound.alone other hother (by rwa [← hvolume])
  have hothers : ({ w with session := session } : Commit σ δ).OthersFresh := by
    intro other hother hne
    exact h.others other hother (by rwa [← hvolume])
  have hsteady : ({ w with session := session } : Commit σ δ).Steady volume :=
    ⟨⟨h.sound.required, h.sound.initialized, h.sound.shown, h.sound.distinct, halone,
      hvolume.trans h.sound.volume⟩, hothers⟩
  exact hsteady.note _ trivial

theorem Commit.Steady.reloaded (h : w.Steady volume) (reason : ReloadReason)
    (hdone : (w.reload reason).1 = true) : (w.reload reason).2.AtWork volume := by
  obtain ⟨session, hreload, -, hcurrent, -⟩ := w.reload_eq reason
  refine ⟨h.reload reason, ?_⟩
  rw [hreload]
  exact (hcurrent hdone).1

/-- **Every exit that gives up a batch may be taken.** -/
theorem rollBack_meets {α : Type} {keep : Bool} {kept failed : RecoveryReason}
    {clean : SessionState σ → Bool} {result : ContainerCommitResult}
    {post : Commit σ δ → α → Prop} :
    Meets (·.Steady volume) (rollBack keep kept failed clean result : Stage σ δ α) post
      fun w _ => w.Closable volume := by
  intro w h
  unfold rollBack
  by_cases hkeep : keep = true
  · rw [if_pos hkeep]
    exact h.sound.latch kept
  · rw [if_neg hkeep]
    have hsteady := h.reload .rollback
    cases hreload : w.reload .rollback with
    | mk done reloaded =>
      rw [hreload] at hsteady
      cases done with
      | false => exact hsteady.sound.latch failed
      | true =>
        have hwork := h.reloaded .rollback (by rw [hreload])
        rw [hreload] at hwork
        exact hwork.closable

/-! ### The stages up to acceptance -/

variable {plan : CommitPlan σ} {result : ContainerCommitResult} {preimage : Option ℕ}

/-- What a commit finds: its own session follows the device, and the plan says what is staged. -/
structure Commit.Started (plan : CommitPlan σ) (volume : ℕ) (w : Commit σ δ) : Prop where
  steady : w.Steady volume
  fresh : w.session.Fresh w.owner.device w.owner.commitGeneration
    (w.owner.unapplied w.session.volumeObjectId)
  existing : plan.existingAcceptedPending = w.owner.existingAcceptedPending w.session
  pending : plan.existingAcceptedPending = false → hasPendingStoreWork w.session.store = false

/-- **However the session is chosen, it shows the device.** -/
theorem prepareSession_meets :
    Meets (·.Started plan volume) (prepareSession plan : Stage σ δ Unit)
      (fun w _ => w.AtWork volume) fun w _ => w.Closable volume := by
  intro w h
  unfold prepareSession
  by_cases hexisting : plan.existingAcceptedPending = true
  · rw [if_pos hexisting]
    have haccepted := h.existing.symm.trans hexisting
    unfold ContainerMountCoordinator.existingAcceptedPending at haccepted
    rw [Bool.and_eq_true] at haccepted
    exact ⟨h.steady, h.fresh.2 haccepted.1 haccepted.2⟩
  · rw [if_neg hexisting]
    by_cases hreuse : w.canReusePreparedSession = true
    · rw [if_pos hreuse]
      unfold Commit.canReusePreparedSession at hreuse
      simp only [Bool.and_eq_true, beq_iff_eq] at hreuse
      exact ⟨h.steady, h.fresh.1 hreuse.1.1.1.1 hreuse.1.1.1.2⟩
    · rw [if_neg hreuse]
      have hsteady := h.steady.reload .beforeCommit
      have hwork := h.steady.reloaded .beforeCommit
      obtain ⟨session, hreload, hvolume, -, hfailed⟩ := w.reload_eq .beforeCommit
      cases hdone : w.reload .beforeCommit with
      | mk done reloaded =>
        rw [hdone] at hsteady hwork hreload hfailed
        cases done with
        | true => exact hwork rfl
        | false =>
          have hunprepared := hfailed rfl
          refine ⟨hsteady.sound, fun _ => ⟨hsteady.others, ?_⟩⟩
          have hpending := h.pending (by simpa using hexisting)
          rw [show reloaded = _ from hreload]
          exact ⟨fun hprepared => absurd hprepared (by simp [Commit.note, hunprepared.1]),
            fun _ => hunprepared.2 hpending⟩

omit [LawfulMetadataStore σ δ] in
theorem checkPreimage_meets :
    Meets (·.AtWork volume) (checkPreimage plan : Stage σ δ _)
      (fun w _ => w.AtWork volume) fun w _ => w.Closable volume := by
  intro w h
  unfold checkPreimage
  dsimp only
  split
  · exact h.closable
  · split
    · exact h.closable
    · split
      · exact h.closable
      · split
        · exact h.closable
        · exact h

theorem prepareBatch_meets :
    Meets (·.AtWork volume) (prepareBatch plan result preimage : Stage σ δ _)
      (fun w _ => w.AtWork volume) fun w _ => w.Closable volume := by
  intro w h
  unfold prepareBatch
  split
  · exact h
  · rename_i hook _
    dsimp only
    split
    · rename_i store _
      exact (h.steady.withStore store).sound.latch _
    · rename_i store _
      exact rollBack_meets _ (h.steady.withStore store)
    · split
      · exact h
      · exact rollBack_meets w h.steady

theorem stageOne_meets {index : ℕ} {request : MutationRequest} :
    Meets (·.AtWork volume) (stageOne plan result preimage index request : Stage σ δ _)
      (fun w _ => w.AtWork volume) fun w _ => w.Closable volume := by
  intro w h
  unfold stageOne
  have hxid := LawfulMetadataStore.stage_xid w.session.store request
  cases hstage : stageMutation w.session.store request with
  | mk answer store =>
    rw [hstage] at hxid
    have hshown := h.note (.staged w.session.volumeObjectId
      (checkpointXid w.session.store) (publishedXid w.owner.device)) h.current
    have hstaged := hshown.withStore store hxid
    dsimp only
    split
    · exact rollBack_meets _ hstaged.steady
    · split
      · exact hstaged
      · split
        · exact hstaged
        · exact rollBack_meets _ hstaged.steady

theorem stageFrom_meets {requests : List MutationRequest} {index : ℕ} :
    Meets (·.AtWork volume) (stageFrom plan result preimage index requests : Stage σ δ _)
      (fun w _ => w.AtWork volume) fun w _ => w.Closable volume := by
  induction requests generalizing index with
  | nil => exact Meets.goOn fun _ h => h
  | cons request rest ih =>
    refine Meets.next stageOne_meets fun first => ?_
    refine Meets.next ih fun others => ?_
    exact Meets.goOn fun _ h => h

/-! ### Capacity and cleanup -/

theorem Commit.AtWork.checkCapacity (h : w.AtWork volume) : w.checkCapacity.2.AtWork volume := by
  unfold Commit.checkCapacity
  have hxid := LawfulMetadataStore.capacity_xid w.session.store
    w.owner.requiredCheckpointXidUnion
  cases hcheck : checkPendingAppleCapacity w.session.store w.owner.requiredCheckpointXidUnion with
  | mk status store =>
    rw [hcheck] at hxid
    exact h.withStore store hxid

/-- What a publication leaves: after `Committed` the session shows the device, after an answer
that came before any write nothing has moved, and after any other one the device has moved
only if the store asks for recovery. -/
structure Commit.Answered (volume : ℕ) (status : CommitStatus) (w : Commit σ δ) : Prop where
  sound : w.Sound volume
  committed : status = .committed → w.session.Current w.owner.device
  unchanged : status = .nothingToCommit ∨ status = .retentionBlocked → w.AtWork volume
  failed : status ≠ .committed → isRecoveryRequired w.session.store = false → w.OthersFresh

/-- **A publication shows a current view.** -/
theorem Commit.AtWork.publish (h : w.AtWork volume) (canonical : Bool) :
    (w.publish canonical).2.Answered volume (w.publish canonical).1 := by
  unfold Commit.publish
  cases hpublish : MetadataStore.publish canonical w.owner.device w.session.store
      w.owner.requiredCheckpointXidUnion with
  | mk status rest =>
    obtain ⟨store, device⟩ := rest
    have hsound : (w.advance store device).Sound volume :=
      ⟨h.steady.sound.required, h.steady.sound.initialized, h.steady.sound.shown,
        h.steady.sound.distinct, h.steady.sound.alone, h.steady.sound.volume⟩
    refine ⟨hsound.note _ h.current, ?_, ?_, ?_⟩
    · rintro rfl
      exact LawfulMetadataStore.publish_committed hpublish
    · intro hstatus
      obtain ⟨hdevice, hxid, -⟩ := LawfulMetadataStore.publish_unchanged hpublish hstatus
      have hcurrent : checkpointXid store = some (publishedXid device) := by
        rw [hxid, hdevice]
        exact h.current
      refine ⟨⟨hsound.note _ h.current, ?_⟩, hcurrent⟩
      intro session hsession hne hwrite
      have hfresh := h.steady.others session hsession hne hwrite
      unfold SessionState.Fresh SessionState.Current at hfresh ⊢
      rw [← hdevice] at hfresh
      exact hfresh
    · intro hstatus hrecovery session hsession hne hwrite
      have hdevice := LawfulMetadataStore.publish_failed hpublish hstatus hrecovery
      have hfresh := h.steady.others session hsession hne hwrite
      unfold SessionState.Fresh SessionState.Current at hfresh ⊢
      rw [← hdevice] at hfresh
      exact hfresh

omit [LawfulMetadataStore σ δ] in
theorem Commit.AtWork.answered (h : w.AtWork volume) (status : CommitStatus) :
    w.Answered volume status :=
  ⟨h.steady.sound, fun _ => h.current, fun _ => h, fun _ _ => h.steady.others⟩

omit [LawfulMetadataStore σ δ] in
theorem Commit.Steady.answered_invariantFailed (h : w.Steady volume) :
    w.Answered volume .invariantFailed :=
  ⟨h.sound, fun h => absurd h (by decide), fun h => absurd h (by decide), fun _ _ => h.others⟩

theorem retryAfterCleanup_answered (h : w.AtWork volume)
    (hasMutations beforeAcceptance : Bool) :
    (retryAfterCleanup hasMutations beforeAcceptance w).2.Answered volume
        (retryAfterCleanup hasMutations beforeAcceptance w).1.status ∧
      (beforeAcceptance = true →
        (retryAfterCleanup hasMutations beforeAcceptance w).2.AtWork volume) := by
  unfold retryAfterCleanup
  cases beforeAcceptance with
  | true =>
    have hchecked := h.checkCapacity
    cases hcheck : w.checkCapacity with
    | mk status checked =>
      rw [hcheck] at hchecked
      exact ⟨hchecked.answered status, fun _ => hchecked⟩
  | false =>
    have hanswered := h.publish true
    cases hpublish : w.publish true with
    | mk status published =>
      rw [hpublish] at hanswered
      rw [if_neg (by decide)]
      dsimp only
      refine ⟨?_, fun h => absurd h (by decide)⟩
      split
      · rename_i hlost
        exact (hanswered.unchanged (.inl hlost.1)).steady.answered_invariantFailed
      · exact hanswered

/-- **A retention cleanup keeps what a publication left.** -/
theorem cleanUpRetention_answered (preimage : Option ℕ)
    (hasMutations beforeAcceptance attempted : Bool) {status : CommitStatus}
    (h : w.Answered volume status) (hcall : plan.call.volumeObjectId = volume)
    (hbefore : beforeAcceptance = true → w.AtWork volume) :
    (cleanUpRetention plan preimage hasMutations beforeAcceptance attempted status w).2.Answered
        volume (cleanUpRetention plan preimage hasMutations beforeAcceptance attempted status
          w).1.status ∧
      (beforeAcceptance = true →
        (cleanUpRetention plan preimage hasMutations beforeAcceptance attempted status
          w).2.Steady volume) := by
  unfold cleanUpRetention
  split
  · exact ⟨h, fun hb => (hbefore hb).steady⟩
  · rename_i hstatus
    rw [not_or, not_not] at hstatus
    have hwork := h.unchanged (.inr hstatus.1)
    have hrefused : ∀ store : σ, (w.withStore store).Answered volume .invariantFailed ∧
        (beforeAcceptance = true → (w.withStore store).Steady volume) := fun store =>
      ⟨(hwork.steady.withStore store).answered_invariantFailed,
        fun _ => hwork.steady.withStore store⟩
    split
    · exact ⟨h, fun hb => (hbefore hb).steady⟩
    · split
      · exact hrefused _
      · rename_i pins hpins
        have hvolume : pins.volumeObjectId = volume :=
          (findVolumeCheckpointPins_volume hpins).trans hcall
        dsimp only
        split
        · exact hrefused _
        · rename_i normalized _
          have hcleaned : ∀ cleanup : Cleanup,
              (w.note (.cleaned plan.call.volumeObjectId cleanup)).AtWork volume :=
            fun cleanup => hwork.note _ trivial
          split
          · exact ⟨(hcleaned _).answered _, fun _ => (hcleaned _).steady⟩
          · have hpinned := fun cleanup => (hcleaned cleanup).setPins
              { pins with requiredCheckpointXids := normalized } hvolume
            have hretried := fun cleanup =>
              retryAfterCleanup_answered (hpinned cleanup) hasMutations beforeAcceptance
            exact ⟨(hretried _).1, fun hb => ((hretried _).2 hb).steady⟩

/-- A status other than the two last ones stops a cleanup before acceptance. -/
theorem checkCapacity_meets {hasMutations : Bool} (hcall : plan.call.volumeObjectId = volume) :
    Meets (·.AtWork volume) (checkCapacity plan result preimage hasMutations : Stage σ δ _)
      (fun w _ => w.AtWork volume) fun w _ => w.Closable volume := by
  intro w h
  unfold checkCapacity
  have hchecked := h.checkCapacity
  cases hcheck : w.checkCapacity with
  | mk status checked =>
    rw [hcheck] at hchecked
    have hanswered := cleanUpRetention_answered preimage hasMutations true false
      (hchecked.answered status) hcall fun _ => hchecked
    dsimp only
    cases hclean : cleanUpRetention plan preimage hasMutations true false status checked with
    | mk retention cleaned =>
      rw [hclean] at hanswered
      dsimp only
      split
      · rename_i hstatus
        exact hanswered.1.unchanged (.inl hstatus)
      · exact rollBack_meets cleaned (hanswered.2 rfl)

/-! ### Acceptance and what follows a publication -/

theorem accept_meets {first : ℕ} {staged : List (MutationRequest × PayloadIdentity)} :
    Meets (·.AtWork volume) (accept plan result first staged : Stage σ δ _)
      (fun w _ => w.AtWork volume) fun w _ => w.Closable volume := by
  intro w h
  unfold accept
  split
  · exact h
  · rename_i hook _
    dsimp only
    have hshown : ∀ call : HookCall,
        (w.note (.hooked w.session.volumeObjectId call)).AtWork volume :=
      fun call => h.note _ trivial
    split
    · exact rollBack_meets _ (hshown _).steady
    · split
      · rename_i pins normalized hpins _
        have hvolume : pins.volumeObjectId = volume :=
          (findVolumeCheckpointPins_volume hpins).trans h.steady.sound.volume
        split
        · exact (hshown _).setPins _ hvolume
        · refine rollBack_meets _ (Commit.AtWork.setPins (hshown _) _ ?_).steady
          exact hvolume
      · exact rollBack_meets _ ((hshown _).steady.latch _)

/-- **A publication that fails may end the commit.** -/
theorem recoverPublication_closable (plan : CommitPlan σ) {status : CommitStatus}
    (h : w.Answered volume status) (hstatus : status ≠ .committed) :
    (recoverPublication plan w).2.Closable volume := by
  unfold recoverPublication
  split
  · exact h.sound.latch _
  · rename_i hrecovery
    have hsteady : w.Steady volume :=
      ⟨h.sound, h.failed hstatus (by simpa using hrecovery)⟩
    split
    · exact h.sound.latch _
    · have hreloaded := hsteady.reload .rollback
      have hwork := hsteady.reloaded .rollback
      cases hreload : w.reload .rollback with
      | mk done reloaded =>
        rw [hreload] at hreloaded hwork
        cases done with
        | false => exact hreloaded.sound.latch _
        | true => exact (hwork rfl).closable

theorem failPublication_meets {rawAcceptanceCompleted : Bool} {retention : Retention}
    (hstatus : retention.status ≠ .committed) :
    Meets (·.Answered volume retention.status)
      (failPublication plan result preimage rawAcceptanceCompleted retention : Stage σ δ _)
      (fun w _ => w.Closable volume) fun w _ => w.Closable volume := by
  intro w h
  unfold failPublication
  have hclosable := recoverPublication_closable plan h hstatus
  dsimp only
  cases hrecover : recoverPublication plan w with
  | mk latched recovered =>
    rw [hrecover] at hclosable
    dsimp only
    split
    · exact ⟨⟨hclosable.sound.required, hclosable.sound.initialized, hclosable.sound.shown,
        hclosable.sound.distinct, hclosable.sound.alone, hclosable.sound.volume⟩,
        hclosable.fresh⟩
    · exact hclosable

/-- The state after a publication that went through: the session shows the device, and the
other ones still follow it unless something was published. -/
structure Commit.Published (volume : ℕ) (status : CommitStatus) (w : Commit σ δ) : Prop where
  sound : w.Sound volume
  current : w.session.Current w.owner.device
  others : status ≠ .committed → w.OthersFresh

omit [LawfulMetadataStore σ δ] in
theorem recordCommitRanges_meets {extents : List ExtentRange × List ExtentRange}
    {status : CommitStatus} :
    Meets (·.Published volume status) (recordCommitRanges extents result : Stage σ δ _)
      (fun w _ => w.Published volume status) fun w _ => w.Closable volume := by
  intro w h
  unfold recordCommitRanges
  split
  · exact h
  · split
    · exact h.sound.latch _
    · exact ⟨⟨h.sound.required, h.sound.initialized, h.sound.shown, h.sound.distinct,
        h.sound.alone, h.sound.volume⟩, h.current, h.others⟩

omit [LawfulMetadataStore σ δ] in
theorem verifyPublication_meets {status status' : CommitStatus} :
    Meets (·.Published volume status) (verifyPublication plan result status' : Stage σ δ _)
      (fun w _ => w.Published volume status) fun w _ => w.Closable volume := by
  intro w h
  unfold verifyPublication
  split
  · exact h
  · split
    · exact h
    · split
      · exact h
      · exact h.sound.latch _

omit [LawfulMetadataStore σ δ] in
/-- **Once the generation has moved, only this session is prepared.** -/
theorem Commit.bumpGeneration_closable (h : w.Sound volume)
    (hcurrent : w.session.Current w.owner.device) : w.bumpGeneration.Closable volume := by
  have hvolumes : w.bumpGeneration.owner.sessions.map (·.volumeObjectId) =
      w.owner.sessions.map (·.volumeObjectId) := by
    unfold Commit.bumpGeneration
    rw [List.map_map]
    rfl
  have halone : w.bumpGeneration.Alone := by
    intro session hsession hne hwrite hflag
    obtain ⟨other, hother, rfl⟩ := List.mem_map.mp hsession
    exact h.alone other hother hne hwrite hflag
  refine ⟨⟨h.required, h.initialized, h.shown, hvolumes ▸ h.distinct, halone, h.volume⟩,
    fun _ => ⟨?_, fun _ _ => hcurrent, fun _ _ => hcurrent⟩⟩
  intro session hsession hne hwrite
  refine ⟨?_, fun hflag hpending => ?_⟩
  · obtain ⟨other, -, rfl⟩ := List.mem_map.mp hsession
    exact fun hprepared => absurd hprepared (by simp)
  · have hidle := halone session hsession hne hwrite hflag
    exact absurd hpending (by simp [hidle])

omit [LawfulMetadataStore σ δ] [ContainerDevice δ] in
theorem Commit.Sound.resolveAccepted (h : w.Sound volume)
    (hcall : plan.call.volumeObjectId = volume) : (w.resolveAccepted plan).Sound volume := by
  unfold Commit.resolveAccepted
  split
  · exact h
  · split
    · exact h
    · rename_i pins hpins
      have hvolume : pins.volumeObjectId = volume :=
        (findVolumeCheckpointPins_volume hpins).trans hcall
      refine ⟨h.required, h.initialized, h.shown, h.distinct, ?_, h.volume⟩
      intro session hsession hne hwrite hflag
      have hother : session.volumeObjectId ≠ pins.volumeObjectId := by
        rw [hvolume, ← h.volume]
        exact hne
      have hsame := unapplied_setPins_of_ne w.owner { pins with
        unappliedAcceptedWork := plan.call.retainAcceptedOwnerUntilCleanup } hother
      exact h.alone session hsession hne hwrite (hsame ▸ hflag)

omit [LawfulMetadataStore σ δ] in
theorem Commit.resolveAccepted_current (h : w.session.Current w.owner.device) :
    (w.resolveAccepted plan).session.Current (w.resolveAccepted plan).owner.device := by
  unfold Commit.resolveAccepted
  split
  · exact h
  · split <;> exact h

omit [LawfulMetadataStore σ δ] in
theorem settle_meets {rawAcceptanceCompleted : Bool} {status : CommitStatus}
    (hcall : plan.call.volumeObjectId = volume) :
    Meets (·.Published volume status)
      (settle plan result rawAcceptanceCompleted status : Stage σ δ _)
      (fun w _ => w.Closable volume) fun w _ => w.Closable volume := by
  intro w h
  unfold settle
  dsimp only
  split
  · rename_i hstatus
    exact (Commit.AtWork.mk ⟨h.sound, h.others hstatus⟩ h.current).closable
  · have hsettled := Commit.bumpGeneration_closable (h.sound.resolveAccepted hcall)
      (Commit.resolveAccepted_current h.current)
    split
    · unfold completeRaw
      split
      · refine ⟨⟨hsettled.sound.required, hsettled.sound.initialized, hsettled.sound.shown,
          hsettled.sound.distinct, hsettled.sound.alone, hsettled.sound.volume⟩, ?_⟩
        exact fun hlatched => absurd hlatched (by simp [Commit.latch])
      · exact hsettled.sound.latch _
    · exact hsettled

theorem publishBatch_meets {hasMutations attempted rawAcceptanceCompleted : Bool}
    (hcall : plan.call.volumeObjectId = volume) :
    Meets (·.AtWork volume) (publishBatch plan result preimage hasMutations attempted
        rawAcceptanceCompleted : Stage σ δ _)
      (fun w _ => w.Closable volume) fun w _ => w.Closable volume := by
  intro w h
  unfold publishBatch
  have hpublished := h.publish w.session.useCanonicalTransaction
  dsimp only
  cases hpublish : w.publish w.session.useCanonicalTransaction with
  | mk status published =>
    rw [hpublish] at hpublished
    have hanswered := (cleanUpRetention_answered preimage hasMutations false attempted
      hpublished hcall fun hb => absurd hb (by decide)).1
    dsimp only
    cases hclean : cleanUpRetention plan preimage hasMutations false attempted status published with
    | mk retention cleaned =>
      rw [hclean] at hanswered
      dsimp only
      split
      · rename_i hstatus
        exact failPublication_meets hstatus.1 cleaned hanswered
      · rename_i hstatus
        have hcurrent : cleaned.session.Current cleaned.owner.device := by
          by_cases hcommitted : retention.status = .committed
          · exact hanswered.committed hcommitted
          · have hnothing : retention.status = .nothingToCommit := by
              by_contra hother
              exact hstatus ⟨hcommitted, hother⟩
            exact (hanswered.unchanged (.inl hnothing)).current
        have hothers : retention.status ≠ .committed → cleaned.OthersFresh := by
          intro hcommitted
          have hnothing : retention.status = .nothingToCommit := by
            by_contra hother
            exact hstatus ⟨hcommitted, hother⟩
          exact (hanswered.unchanged (.inl hnothing)).steady.others
        have hraised : cleaned.raise.Published volume retention.status := by
          unfold Commit.raise ContainerMountCoordinator.raiseCheckpointXid
          split
          · exact ⟨⟨hanswered.sound.required, hanswered.sound.initialized,
              hanswered.sound.shown, hanswered.sound.distinct, hanswered.sound.alone,
              hanswered.sound.volume⟩, hcurrent, hothers⟩
          · exact ⟨hanswered.sound, hcurrent, hothers⟩
        refine Meets.next recordCommitRanges_meets (fun _ => ?_) cleaned.raise hraised
        exact Meets.next verifyPublication_meets fun _ => settle_meets hcall

/-- **Every commit, wherever it ends, may be closed.** -/
theorem commitStages_meets (hcall : plan.call.volumeObjectId = volume) :
    Meets (·.Started plan volume) (commitStages plan : Stage σ δ _)
      (fun w _ => w.Closable volume) fun w _ => w.Closable volume := by
  refine Meets.next prepareSession_meets fun _ => ?_
  refine Meets.next checkPreimage_meets fun checked => ?_
  refine Meets.next prepareBatch_meets fun batch => ?_
  refine Meets.next stageFrom_meets fun staged => ?_
  refine Meets.next (checkCapacity_meets hcall) fun attempted => ?_
  refine Meets.next accept_meets fun rawAcceptanceCompleted => ?_
  split
  · exact Meets.goOn fun _ h => h.closable
  · exact publishBatch_meets hcall

end Coordinator
end ApfsAccess
