import ApfsAccess.Journal.Retention

/-!
# Runs with compactions and restarts

A run serves requests one after the other; any append may find the log full, and
the manager may be restarted at any point.  Beside the manager runs the *evidence*:
every record that was ever written, the transactions that were accepted or
committed with the records that were prepared for them, and the sequences that were
marked durable.  None of it is ever dropped.

* `Consistent` : the invariant that ties the manager, its journal and the evidence
  together.
* `Admissible` : what a request has to meet for the invariant to survive it.
* `Served` : what an admissible request makes of the journal and the evidence.
-/

namespace ApfsAccess
namespace Journal

/-- A request, with the room its append finds and what it observes of the lease and of
the flush it may issue. -/
inductive Request where
  | begin (lease : Lease)
  | recordMutation (lease : Lease) (mutation : MutationIntent)
  | flushPreparedRecords (room : Room) (lease : Lease)
  | commit (room : Room) (lease : Lease) (preimageCheckpointXid : ℕ)
  | accept (room : Room) (lease : Lease) (preimageCheckpointXid : ℕ)
  | acceptForDeferredCommit (room : Room) (lease : Lease) (preimageCheckpointXid : ℕ)
  | abort (room : Room) (lease : Lease)
  | markApfsDurableThrough (room : Room) (lease appendLease : Lease) (flushed : Bool)
      (acceptedSequence : ℕ)
  | markCleanedThrough (room : Room) (lease appendLease : Lease) (flushed : Bool)
      (durableSequence : ℕ)
  | ensureDeferredAcceptanceDurability (acceptedSequence : ℕ) (flushed : Bool)
  | loadAcceptedTransactionsAfter (lease : Lease) (includeCheckpointedTransactions : Bool)
  | restart (lease : Lease)

/-- What has been written, settled, staged and marked durable since the beginning. -/
structure Evidence where
  log : List Record := []
  settled : List Boundary := []
  staged : List Record := []
  marks : List ℕ := []

namespace TransactionManager

variable (codec : WalCodec)

/-- A manager that is constructed over the journal of another one and seeded from it. -/
def restart (m : TransactionManager) (lease : Lease) : Bool × TransactionManager :=
  ({ fresh m.safetyLevel m.journalPath m.volumeIdentity with
    journal := m.journal }).seedIdsFromExistingJournal codec lease

/-- Serve one request. -/
def serve (m : TransactionManager) : Request → Bool × TransactionManager
  | .begin lease => m.begin codec lease
  | .recordMutation lease mutation => m.recordMutation codec lease mutation
  | .flushPreparedRecords room lease => m.flushPreparedRecordsWithin room lease
  | .commit room lease preimage => m.commitWithin codec room lease preimage
  | .accept room lease preimage => m.acceptWithin codec room lease preimage
  | .acceptForDeferredCommit room lease preimage =>
    m.acceptForDeferredCommitWithin codec room lease preimage
  | .abort room lease => m.abortWithin codec room lease
  | .markApfsDurableThrough room lease appendLease flushed sequence =>
    m.markApfsDurableWithin codec room lease appendLease flushed sequence
  | .markCleanedThrough room lease appendLease flushed sequence =>
    m.markCleanedWithin codec room lease appendLease flushed sequence
  | .ensureDeferredAcceptanceDurability sequence flushed =>
    m.ensureDeferredAcceptanceDurability sequence flushed
  | .loadAcceptedTransactionsAfter lease included =>
    let loaded := m.loadAcceptedTransactionsAfter codec lease included
    (loaded.1.isOk, loaded.2)
  | .restart lease => m.restart codec lease

/-- What a request that succeeds means for the evidence. -/
def observe (m : TransactionManager) (evidence : Evidence) : Request → Evidence
  | .begin _ => { evidence with staged := [] }
  | .recordMutation _ mutation =>
    { evidence with
      staged := evidence.staged ++ [m.preparedRecord (m.assignSequence mutation)] }
  | .commit _ _ preimage =>
    { evidence with
      settled := evidence.settled ++
        [⟨true, ⟨m.currentTransactionId, m.nextSequence, evidence.staged, preimage⟩⟩]
      staged := [] }
  | .accept _ _ preimage =>
    { evidence with
      settled := evidence.settled ++
        [⟨false, ⟨m.currentTransactionId, m.nextSequence, evidence.staged, preimage⟩⟩]
      staged := [] }
  | .acceptForDeferredCommit _ _ preimage =>
    { evidence with
      settled := evidence.settled ++
        [⟨false, ⟨m.currentTransactionId, m.nextSequence, evidence.staged, preimage⟩⟩]
      staged := [] }
  | .abort _ _ => { evidence with staged := [] }
  | .markApfsDurableThrough _ _ _ _ sequence =>
    { evidence with marks := evidence.marks ++ [sequence] }
  | _ => evidence

/-- The log with the records of the journal that are not yet in it. -/
def written (log journal : List Record) : List Record :=
  log ++ (plainRecords journal).filter fun record => record ∉ log

/-- One request on the manager together with the evidence. -/
def advance (s : TransactionManager × Evidence) (request : Request) :
    TransactionManager × Evidence :=
  let served := s.1.serve codec request
  let evidence := if served.1 then s.1.observe s.2 request else s.2
  (served.2, { evidence with log := written s.2.log served.2.journal })

/-- A run of requests. -/
def advanceAll (s : TransactionManager × Evidence) (requests : List Request) :
    TransactionManager × Evidence :=
  requests.foldl (advance codec) s

/-! ## The invariant -/

/-- How the watermarks in memory stand to a log in state `σ` that has been compacted
down to `floor`.  The ones in memory are never ahead of the log; they are behind it
by the direct commits since the last seeding, and by what the floor hides. -/
structure WatermarksAt (m : TransactionManager) (σ : LogState) (floor : ℕ) : Prop where
  cleanup_le : m.watermarks.cleanupSequence ≤ m.watermarks.apfsDurableSequence
  durable_le : m.watermarks.apfsDurableSequence ≤ m.watermarks.acceptedSequence
  accepted_written : m.watermarks.acceptedSequence ≤ σ.watermarks.acceptedSequence
  durable_written : m.watermarks.apfsDurableSequence ≤ σ.watermarks.apfsDurableSequence
  cleanup_written : m.watermarks.cleanupSequence ≤ σ.watermarks.cleanupSequence
  durable_known : σ.watermarks.apfsDurableSequence ≤
      max m.watermarks.apfsDurableSequence m.highestCheckpointedMarkerSequence ∨
    σ.watermarks.apfsDurableSequence < floor
  cleanup_known : σ.watermarks.cleanupSequence ≤ m.watermarks.cleanupSequence ∨
    σ.watermarks.cleanupSequence < floor
  boundaries : ∀ sequence ∈ m.acceptedBoundaries, sequence ∈ σ.boundaries ∧
    m.watermarks.cleanupSequence < sequence ∧
    sequence ≤ m.watermarks.acceptedSequence ∧ floor ≤ sequence
  settled : ∀ boundary ∈ σ.history, floor ≤ boundary.sequence →
    boundary.sequence ≤ max m.watermarks.acceptedSequence m.highestCheckpointedMarkerSequence ∧
    (boundary.committed = false → boundary.sequence ≤ m.watermarks.acceptedSequence)
  cleaned : m.watermarks.cleanupSequence = 0 ∨ m.watermarks.cleanupSequence ∈ σ.boundaries
  latest : m.watermarks.acceptedSequence ≤ m.watermarks.apfsDurableSequence ∨
    floor ≤ m.watermarks.acceptedSequence ∧
      ∃ boundary ∈ σ.history, boundary.committed = false ∧
        boundary.sequence = m.watermarks.acceptedSequence
  highest_written : m.highestCheckpointedMarkerSequence ≤ σ.watermarks.acceptedSequence

/-- The open transaction of a manager whose log is in state `σ`. -/
structure OpenedAt (m : TransactionManager) (σ : LogState) (staged : List Record) : Prop where
  current : m.currentTransactionId = σ.bound
  next : m.nextTransactionId = σ.bound + 1
  lt : σ.bound < exhausted
  stage : StagedAt codec m σ.bound σ.flushed staged
  sequences : m.pendingMutations.map MutationIntent.walSequence = staged.map Record.sequence
  plain : ∀ record ∈ σ.flushed, carriesIntent record.operation = false

/-- How a manager that is not poisoned stands to its log.  An abort would rewind the
sequence to the first one that is not in the log. -/
structure LiveAt (m : TransactionManager) (σ : LogState) (floor : ℕ) (staged : List Record) :
    Prop where
  unwritten : σ.sequence < m.rewind.nextSequence ∧ floor ≤ m.rewind.nextSequence
  buffered : m.bufferedPreparedRecords.map Record.sequence =
    List.range' m.rewind.nextSequence m.bufferedPreparedRecords.length
  nextSequence : m.nextSequence = m.rewind.nextSequence + m.bufferedPreparedRecords.length
  sequence_le : m.nextSequence ≤ exhausted
  transaction_le : m.nextTransactionId ≤ exhausted
  intent : σ.intent = none
  unambiguous : m.journalAppendAmbiguous = false
  watermarks : WatermarksAt m σ floor
  closed : m.state = .idle → σ.flushed = [] ∧ m.bufferedPreparedRecords = [] ∧
    m.nextTransactionId = σ.bound
  opened : m.state ≠ .idle → OpenedAt codec m σ staged

/-- The journal still carries the newest transaction id, or none was ever written. -/
def IdsKept (log : List Record) (floor : ℕ) (σ : LogState) : Prop :=
  σ.bound = 1 ∨ ∃ record ∈ log, floor ≤ record.sequence ∧ record.transactionId + 1 = σ.bound ∧
    ∀ sequence ∈ σ.boundaries, sequence ≤ record.sequence

/-- Manager, journal and evidence agree. -/
structure ConsistentAt (m : TransactionManager) (evidence : Evidence) (floor : ℕ)
    (σ : LogState) : Prop where
  path : m.journalPath ≠ ""
  continuation : m.continuationSeed = none
  kept : Kept codec m.journal evidence.log floor σ
  settled : evidence.settled = σ.history
  ids : σ.flushed = [] → IdsKept evidence.log floor σ
  live : m.recoveryStateValid = true → LiveAt codec m σ floor evidence.staged

/-- The invariant of a run. -/
def Consistent (m : TransactionManager) (evidence : Evidence) : Prop :=
  ∃ floor σ, ConsistentAt codec m evidence floor σ

/-- No watermark record that a compaction to `floor` keeps names a boundary that it
drops. -/
def KeepsTargets (journal : List Record) (floor : ℕ) : Prop :=
  ∀ record ∈ journal, record.operation = .durabilityWatermark → floor ≤ record.sequence →
    floor ≤ record.logicalOffset

/-- A compaction to `floor` leaves a record of a journal that has one. -/
def KeepsRecords (journal : List Record) (floor : ℕ) : Prop :=
  plainRecords journal ≠ [] → recordsFrom floor (plainRecords journal) ≠ []

/-- The condition on an append that finds `room` with a compaction floor of `floor`. -/
def RoomAdmitted (journal : List Record) (room : Room) (floor : ℕ) : Prop :=
  (room.compacts = true → KeepsTargets journal floor) ∧
    (∀ ambiguous, room = .stopped ambiguous → KeepsRecords journal floor)

/-- The condition on a request, in the state that serves it. -/
def Admissible (m : TransactionManager) : Request → Prop
  | .flushPreparedRecords room _ =>
    RoomAdmitted m.journal room (m.safeCompactionFloor m.firstPreparedSequenceToKeep)
  | .commit room _ _ => RoomAdmitted m.journal room (m.safeCompactionFloor m.firstSequenceToKeep)
  | .accept room _ _ => RoomAdmitted m.journal room (m.safeCompactionFloor m.firstSequenceToKeep)
  | .acceptForDeferredCommit room _ _ =>
    RoomAdmitted m.journal room (m.safeCompactionFloor m.firstSequenceToKeep)
  | .abort room _ =>
    RoomAdmitted m.journal room (m.rewind.safeCompactionFloor m.rewind.firstSequenceToKeep)
  | .markApfsDurableThrough room lease _ _ sequence =>
    RoomAdmitted m.journal room ((m.reseedUnlessHeld codec lease).2.safeCompactionFloor
      (m.reseedUnlessHeld codec lease).2.firstUncleanedSequence) ∧
    (m.recoveryStateValid = true → m.watermarks.apfsDurableSequence < sequence →
      sequence ∈ m.acceptedBoundaries → m.highestCheckpointedMarkerSequence ≤ sequence)
  | .markCleanedThrough room lease _ _ _ =>
    RoomAdmitted m.journal room ((m.reseedUnlessHeld codec lease).2.safeCompactionFloor
      (m.reseedUnlessHeld codec lease).2.firstUncleanedSequence)
  | _ => True

variable {codec}

/-! ## What a compaction leaves -/

/-- A manager that is not poisoned, its journal and the evidence. -/
structure Aligned (codec : WalCodec) (m : TransactionManager) (evidence : Evidence)
    (floor : ℕ) (σ : LogState) : Prop where
  path : m.journalPath ≠ ""
  continuation : m.continuationSeed = none
  kept : Kept codec m.journal evidence.log floor σ
  settled : evidence.settled = σ.history
  live : LiveAt codec m σ floor evidence.staged

section Compaction

variable {m : TransactionManager} {evidence : Evidence} {floor : ℕ} {σ : LogState}

theorem ConsistentAt.aligned (h : ConsistentAt codec m evidence floor σ)
    (hvalid : m.recoveryStateValid = true) : Aligned codec m evidence floor σ :=
  ⟨h.path, h.continuation, h.kept, h.settled, h.live hvalid⟩

theorem Aligned.sound (h : Aligned codec m evidence floor σ) : σ.Sound :=
  h.kept.path.sound LogState.sound_initial

/-- A floor that may be preferred: above the closed part of the log and not above what
the open transaction has put into it. -/
structure Preferred (m : TransactionManager) (σ : LogState) (log : List Record)
    (preferred : ℕ) : Prop where
  pos : 0 < preferred
  limit : preferred < exhausted
  cleanup_le : m.watermarks.cleanupSequence ≤ preferred
  open_le : m.watermarks.acceptedSequence ≤ m.watermarks.cleanupSequence →
    preferred ≤ m.rewind.nextSequence ∧
    (∀ record ∈ log, record ∉ σ.flushed → record.sequence < preferred) ∧
    ∀ record ∈ σ.flushed, preferred ≤ record.sequence

/-- The three floors `SafeCompactionFloor` chooses from. -/
theorem safeCompactionFloor_cases {preferred : ℕ}
    (hpreferred : m.watermarks.cleanupSequence ≤ preferred) :
    m.safeCompactionFloor preferred = 1 ∨
      (m.safeCompactionFloor preferred = m.watermarks.cleanupSequence ∧
        m.watermarks.cleanupSequence ≠ 0) ∨
      (m.safeCompactionFloor preferred = preferred ∧
        m.watermarks.acceptedSequence ≤ m.watermarks.cleanupSequence ∧
        m.highestCheckpointedMarkerSequence ≤ m.watermarks.cleanupSequence) := by
  unfold safeCompactionFloor
  split
  · exact .inl rfl
  · rename_i hhighest
    split
    · rename_i haccepted
      exact .inr (.inr ⟨rfl, haccepted, Nat.le_of_not_lt hhighest⟩)
    · split
      · exact .inl rfl
      · rename_i hcleanup
        exact .inr (.inl ⟨min_eq_right hpreferred, hcleanup⟩)

/-- The part of the log above any of these floors begins properly. -/
theorem Aligned.begins (h : Aligned codec m evidence floor σ) {preferred : ℕ}
    (hpreferred : Preferred m σ evidence.log preferred) :
    ∃ σ₀, Path codec {} (recordsBelow (m.safeCompactionFloor preferred) evidence.log) σ₀ ∧
      Begins codec (m.safeCompactionFloor preferred) σ₀
        (recordsFrom (m.safeCompactionFloor preferred) evidence.log) σ := by
  have hpath := h.kept.path
  have hmarks := h.live.watermarks
  rcases safeCompactionFloor_cases hpreferred.cleanup_le with
    hfloor | ⟨hfloor, hne⟩ | ⟨hfloor, haccepted, hhighest⟩
  · rw [hfloor]
    have hall : ∀ record ∈ evidence.log, 1 ≤ record.sequence := fun record hrecord => by
      have : 0 < record.sequence := (hpath.mem hrecord).1
      omega
    obtain ⟨hbelow, hfrom⟩ := @recordsFrom_append [] evidence.log 1 (by simp) hall
    rw [List.nil_append] at hbelow hfrom
    rw [hbelow, hfrom]
    exact ⟨{}, .nil _, .closed rfl hpath⟩
  · rw [hfloor]
    exact hpath.begins_at_boundary (hmarks.cleaned.resolve_left hne) hmarks.cleanup_written
  · rw [hfloor]
    obtain ⟨-, hbelow, hopen⟩ := hpreferred.open_le haccepted
    exact hpath.begins_at_open hbelow hopen

/-- What any of these floors drops has been cleaned up. -/
theorem Aligned.dropped (h : Aligned codec m evidence floor σ) {preferred : ℕ}
    (hpreferred : m.watermarks.cleanupSequence ≤ preferred) :
    ∀ sequence ∈ σ.boundaries, sequence < m.safeCompactionFloor preferred →
      sequence ≤ σ.watermarks.cleanupSequence := by
  intro sequence hsequence hlt
  have hmarks := h.live.watermarks
  have hpos := (h.sound.written sequence hsequence).1
  have hcleanup := hmarks.cleanup_written
  rcases safeCompactionFloor_cases hpreferred with
    hfloor | ⟨hfloor, -⟩ | ⟨-, haccepted, hhighest⟩
  · omega
  · omega
  · by_cases hkept : sequence < floor
    · exact h.kept.dropped sequence hsequence hkept
    · obtain ⟨boundary, hmem, rfl⟩ := LogState.mem_boundaries.mp hsequence
      have := (hmarks.settled boundary hmem (by omega)).1
      omega

theorem WatermarksAt.compact (h : WatermarksAt m σ floor) (hσ : σ.Sound) {preferred : ℕ}
    (hpreferred : m.watermarks.cleanupSequence ≤ preferred) :
    WatermarksAt m σ (max floor (m.safeCompactionFloor preferred)) := by
  refine ⟨h.cleanup_le, h.durable_le, h.accepted_written, h.durable_written, h.cleanup_written,
    ?_, ?_, ?_, ?_, h.cleaned, ?_, h.highest_written⟩
  · exact h.durable_known.imp id fun hlt => hlt.trans_le (Nat.le_max_left _ _)
  · exact h.cleanup_known.imp id fun hlt => hlt.trans_le (Nat.le_max_left _ _)
  · intro sequence hsequence
    obtain ⟨hmem, hcleanup, haccepted, hfloor⟩ := h.boundaries sequence hsequence
    refine ⟨hmem, hcleanup, haccepted, Nat.max_le.mpr ⟨hfloor, ?_⟩⟩
    have hpos := (hσ.written sequence hmem).1
    rcases safeCompactionFloor_cases hpreferred with hcase | ⟨hcase, -⟩ | ⟨hcase, hclean, -⟩ <;>
      omega
  · intro boundary hmem hfloor
    exact h.settled boundary hmem ((Nat.le_max_left _ _).trans hfloor)
  · by_cases hwork : m.watermarks.acceptedSequence ≤ m.watermarks.apfsDurableSequence
    · exact .inl hwork
    · obtain ⟨hfloor, boundary, hmem, hcommitted, hsequence⟩ := h.latest.resolve_left hwork
      have hcleanup := h.cleanup_le
      refine .inr ⟨Nat.max_le.mpr ⟨hfloor, ?_⟩, boundary, hmem, hcommitted, hsequence⟩
      rcases safeCompactionFloor_cases hpreferred with hcase | ⟨hcase, -⟩ | ⟨hcase, hclean, -⟩ <;>
        omega

/-- A compaction does not reach past the sequences that are still to be written. -/
theorem Aligned.floor_le (h : Aligned codec m evidence floor σ) {preferred : ℕ}
    (hpreferred : Preferred m σ evidence.log preferred) :
    m.safeCompactionFloor preferred ≤ m.rewind.nextSequence ∧
      m.safeCompactionFloor preferred < exhausted ∧
      0 < m.safeCompactionFloor preferred := by
  have hmarks := h.live.watermarks
  have hunwritten := h.live.unwritten.1
  have haccepted := h.sound.accepted_le
  have hdurable := h.sound.durable_le
  have hcleanup := h.sound.cleanup_le
  have hwritten := hmarks.cleanup_written
  have hnext := h.live.nextSequence
  have hlimit := h.live.sequence_le
  have hpos := hpreferred.pos
  have hpreferredLimit := hpreferred.limit
  have hone : 1 < exhausted := by decide
  rcases safeCompactionFloor_cases hpreferred.cleanup_le with
    hfloor | ⟨hfloor, hne⟩ | ⟨hfloor, hclean, -⟩
  · omega
  · omega
  · have := (hpreferred.open_le hclean).1
    omega

/-- **A compaction keeps manager, journal and evidence aligned.** -/
theorem Aligned.compact (h : Aligned codec m evidence floor σ) {preferred : ℕ}
    (hpreferred : Preferred m σ evidence.log preferred)
    (htargets : KeepsTargets m.journal (m.safeCompactionFloor preferred)) :
    Aligned codec (m.compactJournal (m.safeCompactionFloor preferred)) evidence
      (max floor (m.safeCompactionFloor preferred)) σ := by
  obtain ⟨hle, hlimit, hpos⟩ := h.floor_le hpreferred
  have hlive := h.live
  have hkept := h.kept.compact (effectiveVolumeIdentity m.volumeIdentity) hpos hlimit
    (fun _ => h.begins hpreferred) htargets fun _ => h.dropped hpreferred.cleanup_le
  have hmarks := hlive.watermarks.compact h.sound hpreferred.cleanup_le
  refine ⟨h.path, h.continuation, hkept, h.settled, ?_⟩
  refine ⟨⟨hlive.unwritten.1, Nat.max_le.mpr ⟨hlive.unwritten.2, hle⟩⟩, hlive.buffered,
    hlive.nextSequence, hlive.sequence_le, hlive.transaction_le, hlive.intent,
    hlive.unambiguous, ?_, hlive.closed, fun hstate => ?_⟩
  · exact ⟨hmarks.cleanup_le, hmarks.durable_le, hmarks.accepted_written,
      hmarks.durable_written, hmarks.cleanup_written, hmarks.durable_known,
      hmarks.cleanup_known, hmarks.boundaries, hmarks.settled, hmarks.cleaned, hmarks.latest,
      hmarks.highest_written⟩
  · have hopen := hlive.opened hstate
    exact ⟨hopen.current, hopen.next, hopen.lt,
      ⟨hopen.stage.split, hopen.stage.operations, hopen.stage.prepared, hopen.stage.identified⟩,
      hopen.sequences, hopen.plain⟩

/-- The newest id survives every compaction that keeps a record. -/
theorem Aligned.ids_compact (h : Aligned codec m evidence floor σ) {preferred : ℕ}
    (hpreferred : Preferred m σ evidence.log preferred) (hflushed : σ.flushed = [])
    (hids : IdsKept evidence.log floor σ)
    (hkeeps : m.watermarks.acceptedSequence ≤ m.watermarks.cleanupSequence →
      KeepsRecords m.journal (m.safeCompactionFloor preferred)) :
    IdsKept evidence.log (max floor (m.safeCompactionFloor preferred)) σ := by
  rcases hids with hone | ⟨record, hmem, hfloor, hid, hnewest⟩
  · exact .inl hone
  have hpos : 0 < record.sequence := (h.kept.path.mem hmem).1
  have hkept : m.safeCompactionFloor preferred ≤ record.sequence →
      IdsKept evidence.log (max floor (m.safeCompactionFloor preferred)) σ := fun hle =>
    .inr ⟨record, hmem, Nat.max_le.mpr ⟨hfloor, hle⟩, hid, hnewest⟩
  rcases safeCompactionFloor_cases hpreferred.cleanup_le with
    hcase | ⟨hcase, hne⟩ | ⟨hcase, hclean, -⟩
  · exact hkept (by omega)
  · have := hnewest _ (h.live.watermarks.cleaned.resolve_left hne)
    exact hkept (by omega)
  · -- the whole log lies below the floor, so nothing would be kept
    have hjournal : record ∈ plainRecords m.journal := by
      rw [h.kept.plain]
      exact mem_recordsFrom.mpr ⟨hmem, hfloor⟩
    obtain ⟨other, hother⟩ := List.exists_mem_of_ne_nil _
      (hkeeps hclean (List.ne_nil_of_mem hjournal))
    obtain ⟨hplain, habove⟩ := mem_recordsFrom.mp hother
    rw [h.kept.plain] at hplain
    have hbelow := (hpreferred.open_le hclean).2.1 other (mem_recordsFrom.mp hplain).1
      (by simp [hflushed])
    omega

theorem ConsistentAt.compact (h : ConsistentAt codec m evidence floor σ)
    (hvalid : m.recoveryStateValid = true) {preferred : ℕ}
    (hpreferred : Preferred m σ evidence.log preferred)
    (htargets : KeepsTargets m.journal (m.safeCompactionFloor preferred))
    (hkeeps : m.watermarks.acceptedSequence ≤ m.watermarks.cleanupSequence →
      KeepsRecords m.journal (m.safeCompactionFloor preferred)) :
    ConsistentAt codec (m.compactJournal (m.safeCompactionFloor preferred)) evidence
      (max floor (m.safeCompactionFloor preferred)) σ := by
  have haligned := h.aligned hvalid
  have hcompacted := haligned.compact hpreferred htargets
  exact ⟨h.path, h.continuation, hcompacted.kept, h.settled,
    fun hflushed => haligned.ids_compact hpreferred hflushed (h.ids hflushed) hkeeps,
    fun _ => hcompacted.live⟩

/-- Once a manager is poisoned, only its journal matters. -/
theorem ConsistentAt.of_poisoned (h : ConsistentAt codec m evidence floor σ)
    {m' : TransactionManager} {evidence' : Evidence} (hjournal : m'.journal = m.journal)
    (hpath : m'.journalPath = m.journalPath)
    (hcontinuation : m'.continuationSeed = m.continuationSeed)
    (hlog : evidence'.log = evidence.log) (hsettled : evidence'.settled = evidence.settled)
    (hpoisoned : m'.recoveryStateValid = false) :
    ConsistentAt codec m' evidence' floor σ := by
  refine ⟨?_, ?_, ?_, ?_, ?_, fun hvalid => ?_⟩
  · rw [hpath]
    exact h.path
  · rw [hcontinuation]
    exact h.continuation
  · rw [hjournal, hlog]
    exact h.kept
  · rw [hsettled]
    exact h.settled
  · rw [hlog]
    exact h.ids
  · rw [hpoisoned] at hvalid
    cases hvalid

end Compaction

/-! ## What serving a request does -/

/-- The journal of `m'` is that of `m` with records behind it. -/
def AppendsTo (codec : WalCodec) (m : TransactionManager) (evidence : Evidence) (floor : ℕ)
    (σ : LogState) (m' : TransactionManager) (evidence' : Evidence) : Prop :=
  ∃ appended σ', m'.journal = m.journal ++ appended ∧ Path codec σ appended σ' ∧
    (∀ record ∈ appended, floor ≤ record.sequence ∧
      (record.operation = .durabilityWatermark → floor ≤ record.logicalOffset)) ∧
    ConsistentAt codec m' { evidence' with log := evidence.log ++ appended } floor σ'

/-- What one request makes of the journal: `base` is the journal it started from, or
what a compaction left of that, and `appended` is what was put behind it. -/
structure Growth (codec : WalCodec) (m : TransactionManager) (log : List Record) (σ : LogState)
    (m' : TransactionManager) (base appended : List Record) (floor' : ℕ) (σ' : LogState) :
    Prop where
  journal : m'.journal = base ++ appended
  origin : base = m.journal ∨ ∃ minimum, base = (m.compactJournal minimum).journal
  kept : Kept codec base log floor' σ
  path : Path codec σ appended σ'
  above : ∀ record ∈ appended, floor' ≤ record.sequence ∧
    (record.operation = .durabilityWatermark → floor' ≤ record.logicalOffset)

/-- A request has been served. -/
def Served (codec : WalCodec) (m : TransactionManager) (evidence : Evidence) (σ : LogState)
    (m' : TransactionManager) (evidence' : Evidence) : Prop :=
  ∃ base appended floor' σ', Growth codec m evidence.log σ m' base appended floor' σ' ∧
    ConsistentAt codec m' { evidence' with log := evidence.log ++ appended } floor' σ'

section Serving

variable {m m' : TransactionManager} {evidence evidence' : Evidence} {floor : ℕ} {σ : LogState}

theorem AppendsTo.served (h : AppendsTo codec m evidence floor σ m' evidence')
    (hkept : Kept codec m.journal evidence.log floor σ) :
    Served codec m evidence σ m' evidence' := by
  obtain ⟨appended, σ', hjournal, hpath, habove, hconsistent⟩ := h
  exact ⟨m.journal, appended, floor, σ', ⟨hjournal, .inl rfl, hkept, hpath, habove⟩, hconsistent⟩

theorem AppendsTo.served_compact {minimum : ℕ}
    (h : AppendsTo codec (m.compactJournal minimum) evidence floor σ m' evidence')
    (hkept : Kept codec (m.compactJournal minimum).journal evidence.log floor σ) :
    Served codec m evidence σ m' evidence' := by
  obtain ⟨appended, σ', hjournal, hpath, habove, hconsistent⟩ := h
  exact ⟨(m.compactJournal minimum).journal, appended, floor, σ',
    ⟨hjournal, .inr ⟨minimum, rfl⟩, hkept, hpath, habove⟩, hconsistent⟩

/-- A request that leaves the journal alone. -/
theorem ConsistentAt.served (h : ConsistentAt codec m' evidence' floor σ)
    (hjournal : m'.journal = m.journal) (hlog : evidence'.log = evidence.log) :
    Served codec m evidence σ m' evidence' := by
  have hkept := h.kept
  rw [hjournal, hlog] at hkept
  refine ⟨m.journal, [], floor, σ, ⟨by simp [hjournal], .inl rfl, hkept, .nil σ, by simp⟩, ?_⟩
  rw [List.append_nil, ← hlog]
  exact h

/-- A request that only compacts the journal. -/
theorem ConsistentAt.served_compact {minimum : ℕ} (h : ConsistentAt codec m' evidence' floor σ)
    (hjournal : m'.journal = (m.compactJournal minimum).journal)
    (hlog : evidence'.log = evidence.log) :
    Served codec m evidence σ m' evidence' := by
  have hkept := h.kept
  rw [hjournal, hlog] at hkept
  refine ⟨_, [], floor, σ, ⟨by rw [hjournal, List.append_nil], .inr ⟨minimum, rfl⟩, hkept,
    .nil σ, by simp⟩, ?_⟩
  rw [List.append_nil, ← hlog]
  exact h

/-- Of the manager that is served only the journal and its volume count. -/
theorem Served.of_journal {m₀ : TransactionManager} (h : Served codec m evidence σ m' evidence')
    (hjournal : m.journal = m₀.journal) (hvolume : m.volumeIdentity = m₀.volumeIdentity) :
    Served codec m₀ evidence σ m' evidence' := by
  obtain ⟨base, appended, floor', σ', hgrowth, hconsistent⟩ := h
  refine ⟨base, appended, floor', σ', ⟨hgrowth.journal, ?_, hgrowth.kept, hgrowth.path,
    hgrowth.above⟩, hconsistent⟩
  refine hgrowth.origin.imp (fun hbase => hbase.trans hjournal) fun ⟨minimum, hbase⟩ => ?_
  refine ⟨minimum, hbase.trans ?_⟩
  unfold compactJournal
  rw [hjournal, hvolume]

/-- The log takes exactly the records that a request has appended. -/
theorem Growth.written {base appended : List Record} {floor' : ℕ} {σ' : LogState}
    (h : Growth codec m evidence.log σ m' base appended floor' σ') :
    written evidence.log m'.journal = evidence.log ++ appended := by
  have hnew : ∀ record ∈ appended, record ∉ evidence.log := by
    intro record hrecord hold
    have h1 := (h.path.mem hrecord).1
    have h2 := (h.kept.path.mem hold).2.1
    omega
  have hplain : plainRecords appended = appended :=
    List.filter_eq_self.mpr fun record hrecord => by
      simpa using (h.path.mem hrecord).2.2.2
  have hjournal : plainRecords m'.journal = recordsFrom floor' evidence.log ++ appended := by
    have happend : plainRecords (base ++ appended) = plainRecords base ++ plainRecords appended :=
      List.filter_append ..
    rw [h.journal, happend, h.kept.plain, hplain]
  have hold : ((recordsFrom floor' evidence.log).filter fun record =>
      decide (record ∉ evidence.log)) = [] :=
    List.filter_eq_nil_iff.mpr fun record hrecord => by
      simpa using (mem_recordsFrom.mp hrecord).1
  have hkeep : (appended.filter fun record => decide (record ∉ evidence.log)) = appended :=
    List.filter_eq_self.mpr fun record hrecord => by simpa using hnew record hrecord
  unfold TransactionManager.written
  rw [hjournal, List.filter_append, hold, hkeep, List.nil_append]

/-- An operation that refuses never asks for room. -/
theorem withRoom_of_refused {room : Room} {preferred : ℕ}
    {append : TransactionManager → Bool × TransactionManager} (h : append m = (false, m')) :
    m.withRoom room preferred append = (false, m') := by
  unfold withRoom
  rw [h]

/-- The outcomes of an append that finds `room`. -/
theorem withRoom_cases {room : Room} {preferred : ℕ}
    {append : TransactionManager → Bool × TransactionManager} (hpath : m.journalPath ≠ "")
    {motive : Bool × TransactionManager → Prop}
    (hrefused : ∀ m', append m = (false, m') → motive (false, m'))
    (hfits : ∀ m', append m = (true, m') → motive (true, m'))
    (hcompacted : room = .compacted → (append m).1 = true →
      motive (append (m.compactJournal (m.safeCompactionFloor preferred))))
    (hstopped : ∀ ambiguous, room = .stopped ambiguous → (append m).1 = true →
      motive (false, { m.compactJournal (m.safeCompactionFloor preferred) with
        recoveryStateValid := false
        journalAppendAmbiguous := m.journalAppendAmbiguous || ambiguous }))
    (hpoisoned : ∀ ambiguous, (append m).1 = true → motive (false, { m with
      recoveryStateValid := false
      journalAppendAmbiguous := ambiguous })) :
    motive (m.withRoom room preferred append) := by
  unfold withRoom
  split
  · rename_i m' happend
    exact hrefused m' happend
  · rename_i m' happend
    have htrue : (append m).1 = true := by rw [happend]
    rw [if_neg hpath]
    cases room with
    | fits => exact hfits m' happend
    | compacted => exact hcompacted rfl htrue
    | stopped ambiguous => exact hstopped ambiguous rfl htrue
    | refused ambiguous => exact hpoisoned ambiguous htrue

end Serving

end TransactionManager
end Journal
end ApfsAccess
