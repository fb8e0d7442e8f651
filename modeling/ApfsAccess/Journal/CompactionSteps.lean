import ApfsAccess.Journal.CompactionRun

/-!
# One request of a run with compactions

For every operation that appends, a first lemma says what the append adds to a log
that is aligned with the manager; it holds for the journal as it is and for the
journal a compaction has left, so that a second lemma serves the request whatever
room the append finds.
-/

namespace ApfsAccess
namespace Journal
namespace TransactionManager

variable {codec : WalCodec}

/-! ## Batches -/

/-- A batch of prepared records, none of which carries an intent. -/
theorem prepareAll_path {σ : LogState} {records : List Record} {first : ℕ}
    (hrecords : ∀ record ∈ records, PreparedFor record σ.bound ∧
      carriesIntent record.operation = false)
    (hid : σ.bound < exhausted)
    (hsequences : records.map Record.sequence = List.range' first records.length)
    (hfirst : σ.sequence < first) (hlimit : first + records.length ≤ exhausted) :
    ∃ sequence, Path codec σ records
        { σ with sequence, flushed := σ.flushed ++ records } ∧
      sequence < first + records.length := by
  induction records generalizing σ first with
  | nil =>
    refine ⟨σ.sequence, ?_, hfirst⟩
    simpa using Path.nil σ
  | cons record records ih =>
    simp only [List.map_cons, List.length_cons, List.range'_succ, List.cons.injEq] at hsequences
    simp only [List.length_cons] at hlimit
    have hhead := hrecords record List.mem_cons_self
    have hstep : IntentStep codec record σ.intent σ.intent := by
      unfold IntentStep
      rw [if_neg (by simp [hhead.2])]
    have happends := @Appends.prepare codec σ _ _
      (show σ.sequence < record.sequence by omega)
      (show record.sequence < exhausted by omega) hid hhead.1 hstep
    obtain ⟨sequence, hpath, hlt⟩ := @ih
      { σ with sequence := record.sequence, flushed := σ.flushed ++ [record] } (first + 1)
      (fun other hother => hrecords other (List.mem_cons_of_mem _ hother)) hid
      hsequences.2 (show record.sequence < first + 1 by omega) (by omega)
    refine ⟨sequence, ?_, by simp only [List.length_cons]; omega⟩
    have hall := Path.cons happends hpath
    simpa using hall

section Batch

variable {m : TransactionManager} {evidence : Evidence} {floor : ℕ} {σ : LogState}

theorem LiveAt.unwritten_le (h : LiveAt codec m σ floor evidence.staged) :
    σ.sequence < m.nextSequence ∧ floor ≤ m.nextSequence := by
  have h1 := h.unwritten
  have h2 := h.nextSequence
  omega

/-- The buffered records of an admitted batch, and the state before its marker. -/
theorem LiveAt.batch (h : LiveAt codec m σ floor evidence.staged)
    (hopen : OpenedAt codec m σ evidence.staged) {preimage : ℕ}
    (hadmitted : m.intentsAdmitted codec preimage = true) :
    ∃ sequence intent, Path codec σ m.identifiedRecords
        { σ with sequence, flushed := evidence.staged, intent } ∧
      sequence < m.nextSequence ∧
      ∀ checkpoint, intent = some checkpoint →
        preimage = checkpoint ∧ evidence.staged.length = 1 := by
  have hnext := h.nextSequence
  have hlimit := h.sequence_le
  have hunwritten := h.unwritten.1
  rw [hopen.stage.identifiedRecords]
  rcases hopen.stage.intent hadmitted with hplain | ⟨record, hflushed, hbuffered, hcarries, hcheckpoint⟩
  · obtain ⟨sequence, hpath, hlt⟩ := prepareAll_path
      (fun record hrecord => ⟨(hopen.stage.prepared record (hopen.stage.mem_staged hrecord)).1,
        hplain record (hopen.stage.mem_staged hrecord)⟩) hopen.lt h.buffered hunwritten (by omega)
    rw [← hopen.stage.split] at hpath
    exact ⟨sequence, σ.intent, hpath, by omega, by simp [h.intent]⟩
  · have hmem : record ∈ evidence.staged := hopen.stage.mem_staged (by rw [hbuffered]; simp)
    have hsequence : record.sequence = m.rewind.nextSequence := by
      simpa [hbuffered] using h.buffered
    have hlength : m.bufferedPreparedRecords.length = 1 := by rw [hbuffered]; rfl
    have hstep : IntentStep codec record σ.intent (some preimage) := by
      unfold IntentStep
      rw [if_pos hcarries]
      exact ⟨h.intent, preimage, hcheckpoint, rfl⟩
    have hstaged : evidence.staged = σ.flushed ++ [record] := by
      rw [hopen.stage.split, hbuffered]
    have happends := @Appends.prepare codec σ _ _
      (show σ.sequence < record.sequence by omega)
      (show record.sequence < exhausted by omega) hopen.lt
      (hopen.stage.prepared record hmem).1 hstep
    rw [hbuffered]
    refine ⟨record.sequence, some preimage, ?_, by omega, ?_⟩
    · rw [hstaged]
      exact .single happends
    · rintro checkpoint ⟨⟩
      exact ⟨rfl, by rw [hstaged, hflushed]; rfl⟩

/-! ### The watermarks in memory -/

/-- The watermarks are a matter of a few fields of the manager and of the log. -/
theorem WatermarksAt.congr {m' : TransactionManager} {σ' : LogState} (h : WatermarksAt m σ floor)
    (hwatermarks : m'.watermarks = m.watermarks)
    (hboundaries : m'.acceptedBoundaries = m.acceptedBoundaries)
    (hhighest : m'.highestCheckpointedMarkerSequence = m.highestCheckpointedMarkerSequence)
    (hwatermarks' : σ'.watermarks = σ.watermarks) (hhistory : σ'.history = σ.history) :
    WatermarksAt m' σ' floor := by
  have hsequences : σ'.boundaries = σ.boundaries := by
    unfold LogState.boundaries
    rw [hhistory]
  constructor <;> simp only [hwatermarks, hboundaries, hhighest, hwatermarks', hhistory,
    hsequences]
  · exact h.cleanup_le
  · exact h.durable_le
  · exact h.accepted_written
  · exact h.durable_written
  · exact h.cleanup_written
  · exact h.durable_known
  · exact h.cleanup_known
  · exact h.boundaries
  · exact h.settled
  · exact h.cleaned
  · exact h.latest
  · exact h.highest_written

theorem mem_settle_boundaries {committed : Bool} {record : Record} {sequence : ℕ} :
    sequence ∈ (σ.settle committed record).boundaries ↔
      sequence ∈ σ.boundaries ∨ sequence = record.sequence := by
  simp [LogState.boundaries, LogState.settle, Boundary.sequence]

/-- An accepted marker moves the accepted watermark and adds its boundary. -/
theorem WatermarksAt.accept {m' : TransactionManager} {record : Record}
    (h : WatermarksAt m σ floor) (hσ : σ.Sound) (hnext : σ.sequence < record.sequence)
    (hfloor : floor ≤ record.sequence)
    (hwatermarks : m'.watermarks = { m.watermarks with acceptedSequence := record.sequence })
    (hboundaries : m'.acceptedBoundaries = insert record.sequence m.acceptedBoundaries)
    (hhighest : m'.highestCheckpointedMarkerSequence = m.highestCheckpointedMarkerSequence) :
    WatermarksAt m' (σ.settle false record) floor := by
  have h1 := h.cleanup_le
  have h2 := h.durable_le
  have h3 := h.accepted_written
  have h4 := hσ.accepted_le
  have hdurable := h.durable_written
  constructor <;> simp only [hwatermarks, hboundaries, hhighest]
  · exact h1
  · omega
  · exact Nat.le_refl _
  · exact hdurable
  · exact h.cleanup_written
  · exact h.durable_known
  · exact h.cleanup_known
  · intro sequence hsequence
    rcases Finset.mem_insert.mp hsequence with rfl | hold
    · exact ⟨mem_settle_boundaries.mpr (.inr rfl), by omega, Nat.le_refl _, hfloor⟩
    · obtain ⟨hmem, hcleanup, haccepted, hfloor⟩ := h.boundaries sequence hold
      exact ⟨mem_settle_boundaries.mpr (.inl hmem), hcleanup, by omega, hfloor⟩
  · intro boundary hboundary hfloor
    rcases List.mem_append.mp hboundary with hold | hnew
    · have hle : boundary.sequence ≤ record.sequence :=
        ((hσ.written _ (LogState.mem_boundaries.mpr ⟨boundary, hold, rfl⟩)).2).trans hnext.le
      exact ⟨hle.trans (Nat.le_max_left _ _), fun _ => hle⟩
    · rw [List.mem_singleton.mp hnew]
      exact ⟨Nat.le_max_left _ _, fun _ => Nat.le_refl _⟩
  · exact h.cleaned.imp id fun hmem => mem_settle_boundaries.mpr (.inl hmem)
  · exact .inr ⟨hfloor, _, List.mem_append_right _ List.mem_cons_self, rfl, rfl⟩
  · exact (h.highest_written.trans h4).trans hnext.le

/-- A committed marker is only remembered as the last one. -/
theorem WatermarksAt.commit {m' : TransactionManager} {record : Record}
    (h : WatermarksAt m σ floor) (hσ : σ.Sound) (hnext : σ.sequence < record.sequence)
    (hwatermarks : m'.watermarks = m.watermarks)
    (hboundaries : m'.acceptedBoundaries = m.acceptedBoundaries)
    (hhighest : m'.highestCheckpointedMarkerSequence =
      max m.highestCheckpointedMarkerSequence record.sequence) :
    WatermarksAt m' (σ.settle true record) floor := by
  have h1 := h.accepted_written
  have h2 := h.durable_written
  have h3 := hσ.accepted_le
  have h4 := hσ.durable_le
  constructor <;> simp only [hwatermarks, hboundaries, hhighest]
  · exact h.cleanup_le
  · exact h.durable_le
  · change m.watermarks.acceptedSequence ≤ record.sequence
    omega
  · change m.watermarks.apfsDurableSequence ≤ record.sequence
    omega
  · exact h.cleanup_written
  · refine .inl ?_
    change record.sequence ≤ _
    omega
  · exact h.cleanup_known
  · intro sequence hsequence
    obtain ⟨hmem, hrest⟩ := h.boundaries sequence hsequence
    exact ⟨mem_settle_boundaries.mpr (.inl hmem), hrest⟩
  · intro boundary hboundary hfloor
    rcases List.mem_append.mp hboundary with hold | hnew
    · obtain ⟨hle, haccepted⟩ := h.settled boundary hold hfloor
      exact ⟨by omega, haccepted⟩
    · rw [List.mem_singleton.mp hnew]
      refine ⟨?_, fun hfalse => absurd hfalse (by simp)⟩
      change record.sequence ≤ _
      omega
  · exact h.cleaned.imp id fun hmem => mem_settle_boundaries.mpr (.inl hmem)
  · exact h.latest.imp id fun ⟨hfloor, boundary, hmem, hrest⟩ =>
      ⟨hfloor, boundary, List.mem_append_left _ hmem, hrest⟩
  · exact Nat.max_le.mpr ⟨(h.highest_written.trans h3).trans hnext.le, Nat.le_refl _⟩

/-- A durable watermark at an accepted boundary. -/
theorem WatermarksAt.durable {m' : TransactionManager} {record : Record}
    (h : WatermarksAt m σ floor)
    (hlower : m.watermarks.apfsDurableSequence < record.logicalOffset)
    (hupper : record.logicalOffset ≤ m.watermarks.acceptedSequence)
    (hwatermarks : m'.watermarks =
      { m.watermarks with apfsDurableSequence := record.logicalOffset })
    (hboundaries : m'.acceptedBoundaries = m.acceptedBoundaries)
    (hhighest : m'.highestCheckpointedMarkerSequence = m.highestCheckpointedMarkerSequence) :
    WatermarksAt m' (σ.mark false record) floor := by
  have h1 := h.cleanup_le
  constructor <;> simp only [hwatermarks, hboundaries, hhighest]
  · omega
  · exact hupper
  · exact h.accepted_written
  · exact Nat.le_refl _
  · exact h.cleanup_written
  · exact .inl (Nat.le_max_left _ _)
  · exact h.cleanup_known
  · exact h.boundaries
  · exact h.settled
  · exact h.cleaned
  · exact h.latest.imp (fun hle => by omega) id
  · exact h.highest_written

/-- A cleanup watermark at an accepted boundary. -/
theorem WatermarksAt.clean {m' : TransactionManager} {record : Record}
    (h : WatermarksAt m σ floor)
    (hupper : record.logicalOffset ≤ m.watermarks.apfsDurableSequence)
    (hboundary : record.logicalOffset ∈ m.acceptedBoundaries)
    (hwatermarks : m'.watermarks =
      { m.watermarks with cleanupSequence := record.logicalOffset })
    (hboundaries : m'.acceptedBoundaries =
      m.acceptedBoundaries.filter fun boundary => record.logicalOffset < boundary)
    (hhighest : m'.highestCheckpointedMarkerSequence = m.highestCheckpointedMarkerSequence) :
    WatermarksAt m' (σ.mark true record) floor := by
  constructor <;> simp only [hwatermarks, hboundaries, hhighest]
  · exact hupper
  · exact h.durable_le
  · exact h.accepted_written
  · exact h.durable_written
  · exact Nat.le_refl _
  · exact h.durable_known
  · exact .inl (Nat.le_refl _)
  · intro sequence hsequence
    obtain ⟨hold, hlt⟩ := Finset.mem_filter.mp hsequence
    obtain ⟨hmem, -, hrest⟩ := h.boundaries sequence hold
    exact ⟨hmem, hlt, hrest⟩
  · exact h.settled
  · exact .inr (h.boundaries _ hboundary).1
  · exact h.latest
  · exact h.highest_written

/-- A manager seeded from its journal knows what the log says above the floor. -/
theorem WatermarksAt.restored (hσ : σ.Sound) (m : TransactionManager) (scan : SeedScan) :
    WatermarksAt (m.restored (σ.cut floor) scan) σ floor := by
  have hcut : (σ.cut floor).Sound := hσ.cut
  have hknown : ∀ value, value ≤ dropBelow floor value ∨ value < floor := by
    intro value
    unfold dropBelow
    split <;> omega
  refine ⟨hcut.cleanup_le, hcut.durable_le, dropBelow_le _ _, dropBelow_le _ _, dropBelow_le _ _,
    ?_, hknown _, ?_, ?_, ?_, ?_, ?_⟩
  · exact (hknown _).imp (fun hle => hle.trans (Nat.le_max_left _ _)) id
  · intro sequence hsequence
    obtain ⟨hmem, hcleanup⟩ := Finset.mem_filter.mp hsequence
    have hmem := List.mem_toFinset.mp hmem
    obtain ⟨hold, hfloor⟩ := LogState.mem_cut_boundaries.mp hmem
    exact ⟨hold, hcleanup, hcut.le_accepted hmem, hfloor⟩
  · intro boundary hboundary hfloor
    have hmem : boundary.sequence ∈ (σ.cut floor).boundaries :=
      LogState.mem_cut_boundaries.mpr
        ⟨LogState.mem_boundaries.mpr ⟨boundary, hboundary, rfl⟩, hfloor⟩
    have hle := hcut.le_accepted hmem
    exact ⟨hle.trans (Nat.le_max_left _ _), fun _ => hle⟩
  · exact hcut.cleaned.imp id fun hmem => (LogState.mem_cut_boundaries.mp hmem).1
  · refine hcut.settled.imp id fun ⟨boundary, hlast, hcommitted⟩ => ?_
    obtain ⟨hmem, hfloor⟩ := List.mem_filter.mp (List.mem_of_getLast? hlast)
    have hlatest := hcut.latest
    rw [LogState.boundaries, List.getLast?_map, hlast] at hlatest
    refine ⟨?_, boundary, hmem, hcommitted, hlatest⟩
    change floor ≤ (σ.cut floor).watermarks.acceptedSequence
    rw [← hlatest]
    exact of_decide_eq_true hfloor
  · exact (hcut.highest_le.trans hcut.durable_le).trans (dropBelow_le _ _)

/-! ### Accepting and committing -/

/-- The buffered records lie above the floor. -/
theorem LiveAt.buffered_above (h : LiveAt codec m σ floor evidence.staged)
    (hopen : OpenedAt codec m σ evidence.staged) :
    ∀ record ∈ m.identifiedRecords, floor ≤ record.sequence ∧
      (record.operation = .durabilityWatermark → floor ≤ record.logicalOffset) := by
  intro record hrecord
  rw [hopen.stage.identifiedRecords] at hrecord
  have hmem : record.sequence ∈ m.bufferedPreparedRecords.map Record.sequence :=
    List.mem_map_of_mem hrecord
  rw [h.buffered, List.mem_range'_1] at hmem
  have hfloor := h.unwritten.2
  refine ⟨by omega, fun hop => absurd hop ?_⟩
  exact (hopen.stage.prepared record (hopen.stage.mem_staged hrecord)).1.ne_watermark

/-- The outcome that a boundary is written with. -/
def settlement (committed : Bool) : Outcome :=
  if committed then .committed else .accepted

/-- **An accepted or committed batch extends the log by its transaction.** -/
theorem Aligned.settle (h : Aligned codec m evidence floor σ) (hactive : m.state = .active)
    {committed : Bool} (hpending : committed = false → m.pendingMutations ≠ [])
    {lease : Lease} {preimage : ℕ} {m' : TransactionManager}
    (hpersist : ({ m with state := .committing } : TransactionManager).persistTransactionBatchLocked
      codec lease (settlement committed) preimage = (true, m')) :
    AppendsTo codec m evidence floor σ m'.closeTransaction
      { evidence with
        settled := evidence.settled ++
          [⟨committed, ⟨m.currentTransactionId, m.nextSequence, evidence.staged, preimage⟩⟩]
        staged := [] } := by
  have hlive := h.live
  have hopen := hlive.opened (by simp [hactive])
  obtain ⟨hexhausted, hadmitted, rfl⟩ := persistTransactionBatchLocked_eq_true hpersist h.path
  have hadmitted : m.intentsAdmitted codec preimage = true := hadmitted (by
    cases committed <;> simp [settlement])
  have hlimit : m.nextSequence < exhausted := lt_of_le_of_ne hlive.sequence_le hexhausted
  have hfloor : floor ≤ m.nextSequence := hlive.unwritten_le.2
  obtain ⟨sequence, intent, hbatch, hsequence, hintent⟩ := hlive.batch hopen hadmitted
  have hlength : m.pendingMutations.length = evidence.staged.length := by
    simpa using congrArg List.length hopen.stage.operations
  have hstaged : committed = false → evidence.staged ≠ [] := by
    intro hfalse hnil
    exact hpending hfalse (List.length_eq_zero_iff.mp (by rw [hlength, hnil]; rfl))
  -- the marker closes the transaction in the state the buffered records lead to
  let σ₁ : LogState := { σ with sequence, flushed := evidence.staged, intent }
  let marker := m.buildTransactionMarkerLocked (settlement committed) preimage
  have hobject : marker.objectId = preimage := by cases committed <;> rfl
  have happends : Appends codec σ₁ marker (σ₁.settle committed marker) := by
    refine .settle committed hsequence hlimit hopen.lt ⟨hopen.current, rfl, rfl⟩ ?_ ?_ hstaged
      hlength ?_
    · cases committed <;> rfl
    · cases committed <;> rfl
    · intro checkpoint hcheckpoint
      obtain ⟨heq, hone⟩ := hintent checkpoint hcheckpoint
      exact ⟨hobject.trans heq, hone⟩
  have hpath : Path codec σ (m.identifiedRecords ++ [marker]) (σ₁.settle committed marker) :=
    hbatch.append (.single happends)
  have habove : ∀ record ∈ m.identifiedRecords ++ [marker], floor ≤ record.sequence ∧
      (record.operation = .durabilityWatermark → floor ≤ record.logicalOffset) := by
    intro record hrecord
    rcases List.mem_append.mp hrecord with hold | hnew
    · exact hlive.buffered_above hopen record hold
    · rw [List.mem_singleton.mp hnew]
      exact ⟨hfloor, fun hop => absurd hop (by simp [marker, buildTransactionMarkerLocked])⟩
  have hkept := h.kept.appendAll hpath (fun record hrecord => (habove record hrecord).1)
    fun record hrecord => (habove record hrecord).2
  have hσ₁ : σ₁.Sound := hbatch.sound h.sound
  have hσ' : (σ₁.settle committed marker).Sound := happends.sound hσ₁
  have hmarks₁ : WatermarksAt m σ₁ floor :=
    hlive.watermarks.congr rfl rfl rfl rfl rfl
  refine ⟨m.identifiedRecords ++ [marker], σ₁.settle committed marker, ?_, hpath, habove, ?_⟩
  · cases committed <;> exact List.append_assoc ..
  refine ⟨?_, ?_, ?_, ?_, fun _ => .inr ⟨marker, ?_, hfloor, ?_, ?_⟩, fun _ => ?_⟩
  · cases committed <;> exact h.path
  · cases committed <;> exact h.continuation
  · have hjournal : (closeTransaction (clearBufferedPreparedRecords (observeMarker
        { m with
          state := .committing
          journal := m.journal ++ m.identifiedRecords ++ [marker]
          nextSequence := m.nextSequence + 1 } (settlement committed) m.nextSequence))).journal =
        m.journal ++ (m.identifiedRecords ++ [marker]) := by
      cases committed <;> exact List.append_assoc ..
    exact hjournal ▸ hkept
  · change evidence.settled ++ _ = σ.history ++ _
    rw [h.settled, hobject, hopen.current]
    rfl
  · exact List.mem_append_right _ (List.mem_append_right _ List.mem_cons_self)
  · exact congrArg (· + 1) hopen.current
  · intro boundary hboundary
    exact (hσ'.written boundary hboundary).2
  · refine ⟨?_, ?_, ?_, ?_, ?_, rfl, ?_, ?_, ?_, ?_⟩
    · cases committed <;>
        exact ⟨Nat.lt_succ_self _, hfloor.trans (Nat.le_succ _)⟩
    · cases committed <;> rfl
    · cases committed <;> rfl
    · cases committed <;> exact hlimit
    · cases committed <;> exact hlive.transaction_le
    · cases committed <;> exact hlive.unambiguous
    · cases committed with
      | false => exact hmarks₁.accept hσ₁ hsequence hfloor rfl rfl rfl
      | true => exact hmarks₁.commit hσ₁ hsequence rfl rfl rfl
    · intro _
      cases committed <;> exact ⟨rfl, rfl, hopen.next⟩
    · intro hstate
      cases committed <;> exact absurd rfl hstate

/-! ### The floor a batch prefers -/

/-- The first sequence of the open transaction lies above everything that is closed. -/
theorem LiveAt.first_staged (h : LiveAt codec m σ floor evidence.staged)
    (hopen : OpenedAt codec m σ evidence.staged) {log : List Record}
    (hpath : Path codec {} log σ) {first : Record} {rest : List Record}
    (hstaged : evidence.staged = first :: rest) :
    σ.watermarks.acceptedSequence < first.sequence ∧
      first.sequence ≤ m.rewind.nextSequence ∧ first.sequence < exhausted ∧
      (∀ record ∈ log, record ∉ σ.flushed → record.sequence < first.sequence) ∧
      ∀ record ∈ σ.flushed, first.sequence ≤ record.sequence := by
  have hσ := hpath.sound LogState.sound_initial
  have haccepted := hσ.accepted_le
  have hunwritten := h.unwritten.1
  have hnext := h.nextSequence
  have hlimit := h.sequence_le
  have hsplit := hopen.stage.split
  rw [hstaged] at hsplit
  obtain ⟨front, σ₀, hlog, hfront, -, hmarks, hflushed⟩ := hpath.open_suffix
  cases hcase : σ.flushed with
  | nil =>
    rw [hcase, List.nil_append] at hsplit
    have hbuffered := h.buffered
    rw [← hsplit] at hbuffered hnext
    simp only [List.map_cons, List.length_cons, List.range'_succ, List.cons.injEq] at hbuffered
    simp only [List.length_cons] at hnext
    refine ⟨by omega, by omega, by omega, fun record hrecord _ => ?_, by simp⟩
    have := (hpath.mem hrecord).2.1
    omega
  | cons head tail =>
    rw [hcase, List.cons_append, List.cons.injEq] at hsplit
    obtain ⟨rfl, -⟩ := hsplit
    rw [hcase] at hlog hflushed
    have hmem : first ∈ log := by
      rw [hlog]
      exact List.mem_append_right _ List.mem_cons_self
    have hfirst := hpath.mem hmem
    have habove := (hflushed.mem List.mem_cons_self).1
    have hσ₀ := (hfront.sound LogState.sound_initial).accepted_le
    rw [hmarks] at hσ₀
    refine ⟨by omega, by omega, by omega, fun record hrecord hnot => ?_, fun record hrecord => ?_⟩
    · rw [hlog] at hrecord
      have hmemFront := (List.mem_append.mp hrecord).resolve_right hnot
      have := (hfront.mem hmemFront).2.1
      omega
    · have hincreasing := hflushed.increasing
      rw [List.map_cons, List.pairwise_cons] at hincreasing
      rcases List.mem_cons.mp hrecord with rfl | hrest
      · exact Nat.le_refl _
      · exact (hincreasing.1 record.sequence (List.mem_map_of_mem hrest)).le

theorem LiveAt.cleanup_le_accepted (h : LiveAt codec m σ floor evidence.staged) (hσ : σ.Sound) :
    m.watermarks.cleanupSequence ≤ σ.watermarks.acceptedSequence := by
  have h1 := h.watermarks.cleanup_written
  have h2 := hσ.cleanup_le
  have h3 := hσ.durable_le
  omega

/-- The floor a batch prefers. -/
theorem Aligned.preferred (h : Aligned codec m evidence floor σ) (hnotIdle : m.state ≠ .idle)
    (hexhausted : m.rewind.nextSequence ≠ exhausted) :
    Preferred m σ evidence.log m.firstSequenceToKeep := by
  have hlive := h.live
  have hopen := hlive.opened hnotIdle
  have hcleanup := hlive.cleanup_le_accepted h.sound
  have haccepted := h.sound.accepted_le
  have hunwritten := hlive.unwritten.1
  have hnext := hlive.nextSequence
  have hlimit := hlive.sequence_le
  cases hpending : m.pendingMutations with
  | nil =>
    have hfirst : m.firstSequenceToKeep = m.nextSequence := by
      unfold firstSequenceToKeep
      rw [hpending]
    have hstaged : evidence.staged = [] := by
      have := hopen.sequences
      rw [hpending] at this
      exact List.map_eq_nil_iff.mp this.symm
    have hsplit := hopen.stage.split
    rw [hstaged] at hsplit
    obtain ⟨hflushed, hbuffered⟩ := List.append_eq_nil_iff.mp hsplit.symm
    rw [hbuffered] at hnext
    simp only [List.length_nil, Nat.add_zero] at hnext
    rw [hfirst]
    refine ⟨by omega, by omega, by omega, fun _ => ⟨by omega, fun record hrecord _ => ?_, ?_⟩⟩
    · have := (h.kept.path.mem hrecord).2.1
      omega
    · rw [hflushed]
      simp
  | cons mutation rest =>
    have hsequences := hopen.sequences
    rw [hpending] at hsequences
    obtain ⟨first, others, hstaged⟩ : ∃ first others, evidence.staged = first :: others := by
      cases hcase : evidence.staged with
      | nil => simp [hcase] at hsequences
      | cons first others => exact ⟨first, others, rfl⟩
    rw [hstaged] at hsequences
    simp only [List.map_cons, List.cons.injEq] at hsequences
    have hfirst : m.firstSequenceToKeep = first.sequence := by
      unfold firstSequenceToKeep
      rw [hpending]
      exact hsequences.1
    obtain ⟨hclosed, hle, hfirstLimit, hbelow, habove⟩ :=
      hlive.first_staged hopen h.kept.path hstaged
    rw [hfirst]
    exact ⟨by omega, hfirstLimit, by omega, fun _ => ⟨hle, hbelow, habove⟩⟩

/-- The checks before the append of a batch do not look at the journal. -/
theorem persistTransactionBatchLocked_compact (lease : Lease) (outcome : Outcome)
    (preimage minimum : ℕ) :
    ((m.compactJournal minimum).persistTransactionBatchLocked codec lease outcome preimage).1 =
      (m.persistTransactionBatchLocked codec lease outcome preimage).1 := by
  unfold persistTransactionBatchLocked
  simp only [apply_ite Prod.fst]
  rfl

/-- A manager with an open transaction may move to any state but `Idle`. -/
theorem LiveAt.restate (h : LiveAt codec m σ floor evidence.staged) (hnotIdle : m.state ≠ .idle)
    {state : ManagerState} (hstate : state ≠ .idle) :
    LiveAt codec { m with state := state } σ floor evidence.staged := by
  have hopen := h.opened hnotIdle
  refine ⟨h.unwritten, h.buffered, h.nextSequence, h.sequence_le, h.transaction_le, h.intent,
    h.unambiguous, h.watermarks.congr rfl rfl rfl rfl rfl, fun hidle => absurd hidle hstate, fun _ => ?_⟩
  exact ⟨hopen.current, hopen.next, hopen.lt,
    ⟨hopen.stage.split, hopen.stage.operations, hopen.stage.prepared, hopen.stage.identified⟩,
    hopen.sequences, hopen.plain⟩

theorem ConsistentAt.restate (h : ConsistentAt codec m evidence floor σ)
    (hnotIdle : m.state ≠ .idle) {state : ManagerState} (hstate : state ≠ .idle) :
    ConsistentAt codec { m with state := state } evidence floor σ :=
  ⟨h.path, h.continuation, h.kept, h.settled, h.ids,
    fun hvalid => (h.live hvalid).restate hnotIdle hstate⟩

/-- **A batch is served, whatever room it finds.** -/
theorem served_persistAndClose (h : ConsistentAt codec m evidence floor σ)
    (hvalid : m.recoveryStateValid = true) (hactive : m.state = .active) {committed : Bool}
    (hpending : committed = false → m.pendingMutations ≠ []) (room : Room) (lease : Lease)
    (preimage : ℕ)
    (hroom : RoomAdmitted m.journal room (m.safeCompactionFloor m.firstSequenceToKeep)) :
    Served codec m evidence σ
      (m.persistAndClose codec room lease (settlement committed) preimage).2
      (if (m.persistAndClose codec room lease (settlement committed) preimage).1 then
        { evidence with
          settled := evidence.settled ++
            [⟨committed, ⟨m.currentTransactionId, m.nextSequence, evidence.staged, preimage⟩⟩]
          staged := [] }
      else evidence) := by
  have hnotIdle : m.state ≠ .idle := by simp [hactive]
  have haligned := h.aligned hvalid
  have hpreferred : (({ m with state := .committing } :
      TransactionManager).persistTransactionBatchLocked codec lease (settlement committed)
        preimage).1 = true → Preferred m σ evidence.log m.firstSequenceToKeep := by
    intro htrue
    refine haligned.preferred hnotIdle ?_
    obtain ⟨m', hpersist⟩ : ∃ m', ({ m with state := .committing } :
        TransactionManager).persistTransactionBatchLocked codec lease (settlement committed)
          preimage = (true, m') := ⟨_, Prod.ext htrue rfl⟩
    have hexhausted : m.nextSequence ≠ exhausted :=
      (persistTransactionBatchLocked_eq_true hpersist h.path).1
    have hnext := haligned.live.nextSequence
    have hlimit := haligned.live.sequence_le
    omega
  refine @withRoom_cases { m with state := .committing } room _ _ h.path
    (fun result => Served codec m evidence σ (closeOrFail result).2
      (if (closeOrFail result).1 then _ else evidence)) ?_ ?_ ?_ ?_ ?_
  · intro m' hpersist
    rcases persistTransactionBatchLocked_eq_false hpersist h.path with rfl | rfl
    · exact (h.restate hnotIdle (by simp)).served rfl rfl
    · exact ConsistentAt.served (h.of_poisoned rfl rfl rfl rfl rfl rfl) rfl rfl
  · intro m' hpersist
    exact (haligned.settle hactive hpending hpersist).served h.kept
  · rintro rfl htrue
    have hcompacted := haligned.compact (hpreferred htrue) (hroom.1 rfl)
    obtain ⟨m', hpersist⟩ : ∃ m', (({ m with state := .committing } :
        TransactionManager).compactJournal
          (m.safeCompactionFloor m.firstSequenceToKeep)).persistTransactionBatchLocked codec lease
          (settlement committed) preimage = (true, m') :=
      ⟨_, Prod.ext ((persistTransactionBatchLocked_compact lease _ preimage _).trans htrue) rfl⟩
    have hserved := (hcompacted.settle hactive hpending hpersist).served_compact hcompacted.kept
    rw [show ({ m with state := .committing } : TransactionManager).safeCompactionFloor
      ({ m with state := .committing } : TransactionManager).firstSequenceToKeep =
        m.safeCompactionFloor m.firstSequenceToKeep from rfl, hpersist]
    exact hserved
  · intro ambiguous hstopped htrue
    have hcompacted := h.compact hvalid (hpreferred htrue) (hroom.1 (by rw [hstopped]; rfl))
      fun _ => hroom.2 ambiguous hstopped
    exact ConsistentAt.served_compact (hcompacted.of_poisoned rfl rfl rfl rfl rfl rfl) rfl rfl
  · intro ambiguous _
    exact ConsistentAt.served (h.of_poisoned rfl rfl rfl rfl rfl rfl) rfl rfl

/-! ### Aborting -/

/-- An abort that has nothing to rewind only fails the transaction. -/
theorem rewind_of_unbuffered (hbuffered : m.bufferedPreparedRecords = []) :
    m.rewind = { m with state := .failed } := by
  unfold rewind
  rw [hbuffered]

/-- **An aborted marker closes the transaction in the log.** -/
theorem Aligned.abort (h : Aligned codec m evidence floor σ) (hnotIdle : m.state ≠ .idle)
    {lease : Lease} {m' : TransactionManager}
    (hpersist : m.rewind.persistTransactionBatchLocked codec lease .aborted 0 = (true, m')) :
    AppendsTo codec m evidence floor σ m'.closeTransaction { evidence with staged := [] } := by
  have hlive := h.live
  have hopen := hlive.opened hnotIdle
  have hnext := hlive.nextSequence
  have hlimit := hlive.sequence_le
  have hunwritten := hlive.unwritten
  obtain ⟨hexhausted, -, hm'⟩ := persistTransactionBatchLocked_eq_true hpersist h.path
  let marker := m.rewind.buildTransactionMarkerLocked .aborted 0
  have happends : Appends codec σ marker (σ.close m.rewind.nextSequence) :=
    .abort hunwritten.1 (show m.rewind.nextSequence < exhausted by omega) hopen.lt
      ⟨hopen.current, rfl, rfl⟩ rfl rfl
  have habove : ∀ record ∈ [marker], floor ≤ record.sequence ∧
      (record.operation = .durabilityWatermark → floor ≤ record.logicalOffset) := by
    intro record hrecord
    rw [List.mem_singleton.mp hrecord]
    exact ⟨hunwritten.2, fun hop => absurd hop (by simp [marker, buildTransactionMarkerLocked])⟩
  have hkept := h.kept.append happends hunwritten.2 (habove marker List.mem_cons_self).2
  have hjournal : m'.journal = m.journal ++ [marker] := by
    have hidentified : m.rewind.identifiedRecords = [] := rfl
    rw [hm', hidentified, List.append_nil]
    rfl
  refine ⟨[marker], σ.close m.rewind.nextSequence, hjournal, .single happends, habove, ?_⟩
  subst hm'
  refine ⟨h.path, h.continuation, ?_, h.settled, fun _ => .inr ⟨marker,
    List.mem_append_right _ List.mem_cons_self, hunwritten.2, congrArg (· + 1) hopen.current, ?_⟩,
    fun _ => ?_⟩
  · exact hjournal ▸ hkept
  · intro boundary hboundary
    exact ((h.sound.written boundary hboundary).2).trans hunwritten.1.le
  · refine ⟨⟨Nat.lt_succ_self _, hunwritten.2.trans (Nat.le_succ _)⟩, rfl, rfl, ?_,
      hlive.transaction_le, rfl, hlive.unambiguous,
      hlive.watermarks.congr rfl rfl rfl rfl rfl, fun _ => ⟨rfl, rfl, hopen.next⟩, fun hstate => absurd rfl hstate⟩
    change m.rewind.nextSequence + 1 ≤ exhausted
    omega

/-- The floor an abort prefers is that of the batch it drops. -/
theorem Aligned.rewind_firstSequenceToKeep (h : Aligned codec m evidence floor σ)
    (hnotIdle : m.state ≠ .idle) : m.rewind.firstSequenceToKeep = m.firstSequenceToKeep := by
  have hopen := h.live.opened hnotIdle
  have hnext := h.live.nextSequence
  have hsame : m.rewind.pendingMutations = m.pendingMutations := rfl
  unfold firstSequenceToKeep
  rw [hsame]
  cases hpending : m.pendingMutations with
  | nil =>
    have hstaged : evidence.staged = [] := by
      have := hopen.sequences
      rw [hpending] at this
      exact List.map_eq_nil_iff.mp this.symm
    have hsplit := hopen.stage.split
    rw [hstaged] at hsplit
    rw [(List.append_eq_nil_iff.mp hsplit.symm).2] at hnext
    exact hnext.symm
  | cons first rest => rfl

/-- **An abort is served, whatever room it finds.** -/
theorem served_abort (h : ConsistentAt codec m evidence floor σ) (room : Room) (lease : Lease)
    (hroom : RoomAdmitted m.journal room
      (m.rewind.safeCompactionFloor m.rewind.firstSequenceToKeep)) :
    Served codec m evidence σ (m.abortWithin codec room lease).2
      (if (m.abortWithin codec room lease).1 then { evidence with staged := [] }
      else evidence) := by
  unfold abortWithin
  split
  · rename_i hinvalid
    have hinvalid : m.recoveryStateValid = false := by simpa using hinvalid
    exact ConsistentAt.served (h.of_poisoned rfl rfl rfl rfl rfl hinvalid) rfl rfl
  · rename_i hvalid
    have hvalid : m.recoveryStateValid = true := by simpa using hvalid
    have haligned := h.aligned hvalid
    split
    · rename_i hidle
      have hlive := haligned.live
      have hconsistent : ConsistentAt codec m { evidence with staged := [] } floor σ :=
        ⟨h.path, h.continuation, h.kept, h.settled, h.ids, fun _ =>
          ⟨hlive.unwritten, hlive.buffered, hlive.nextSequence, hlive.sequence_le,
            hlive.transaction_le, hlive.intent, hlive.unambiguous, hlive.watermarks,
            hlive.closed, fun hnotIdle => absurd hidle hnotIdle⟩⟩
      exact hconsistent.served rfl rfl
    · rename_i hnotIdle
      split
      · exact (h.restate hnotIdle (by simp)).served rfl rfl
      · have hfirst := haligned.rewind_firstSequenceToKeep hnotIdle
        have hpreferred : (m.rewind.persistTransactionBatchLocked codec lease .aborted 0).1 =
            true → Preferred m σ evidence.log m.rewind.firstSequenceToKeep := by
          intro htrue
          obtain ⟨m', hpersist⟩ : ∃ m', m.rewind.persistTransactionBatchLocked codec lease
              .aborted 0 = (true, m') := ⟨_, Prod.ext htrue rfl⟩
          rw [hfirst]
          exact haligned.preferred hnotIdle
            (persistTransactionBatchLocked_eq_true hpersist h.path).1
        refine @withRoom_cases m.rewind room _ _ h.path
          (fun result => Served codec m evidence σ (closeIfPersisted result).2
            (if (closeIfPersisted result).1 then _ else evidence)) ?_ ?_ ?_ ?_ ?_
        · intro m' hpersist
          rcases persistTransactionBatchLocked_eq_false hpersist h.path with rfl | rfl
          · -- nothing is left to rewind once the sequences are used up
            have hbuffered : m.bufferedPreparedRecords = [] := by
              have hnext := haligned.live.nextSequence
              have hlimit := haligned.live.sequence_le
              have hunwritten := haligned.live.unwritten
              rw [persistTransactionBatchLocked_aborted (m := m.rewind) lease h.path rfl]
                at hpersist
              split at hpersist
              · exact List.length_eq_zero_iff.mp (by omega)
              · split at hpersist
                · have hflag := congrArg (fun result => result.2.recoveryStateValid) hpersist
                  simp only at hflag
                  rw [show m.rewind.recoveryStateValid = true from hvalid] at hflag
                  cases hflag
                · simp at hpersist
            rw [rewind_of_unbuffered hbuffered]
            exact (h.restate hnotIdle (by simp)).served rfl rfl
          · exact ConsistentAt.served (h.of_poisoned rfl rfl rfl rfl rfl rfl) rfl rfl
        · intro m' hpersist
          exact (haligned.abort hnotIdle hpersist).served h.kept
        · rintro rfl htrue
          have hcompacted := haligned.compact (hpreferred htrue) (hroom.1 rfl)
          obtain ⟨m', hpersist⟩ : ∃ m', (m.rewind.compactJournal
              (m.rewind.safeCompactionFloor
                m.rewind.firstSequenceToKeep)).persistTransactionBatchLocked codec lease
                .aborted 0 = (true, m') :=
            ⟨_, Prod.ext ((persistTransactionBatchLocked_compact lease _ 0 _).trans htrue) rfl⟩
          have hserved := (hcompacted.abort hnotIdle hpersist).served_compact hcompacted.kept
          rw [hpersist]
          exact hserved
        · intro ambiguous hstopped htrue
          have hcompacted := h.compact hvalid (hpreferred htrue) (hroom.1 (by rw [hstopped]; rfl))
            fun _ => hroom.2 ambiguous hstopped
          exact ConsistentAt.served_compact
            (hcompacted.of_poisoned rfl rfl rfl rfl rfl rfl) rfl rfl
        · intro ambiguous _
          exact ConsistentAt.served (h.of_poisoned rfl rfl rfl rfl rfl rfl) rfl rfl

/-! ### Flushing prepared records -/

/-- The specification of `FlushPreparedRecords` on a manager with a journal and a
buffer. -/
theorem flushPreparedRecords_cases (lease : Lease) (hpath : m.journalPath ≠ "")
    (hbuffered : m.bufferedPreparedRecords ≠ []) :
    (∃ m', m.flushPreparedRecords lease = (false, m') ∧
        (m' = m ∨ m' = { m with recoveryStateValid := false })) ∨
      (¬ (m.pendingMutations.any fun mutation =>
          carriesIntent (toWalOperation mutation.kind)) = true ∧
        m.flushPreparedRecords lease = (true, { m with
          journal := m.journal ++ m.identifiedRecords
          bufferedPreparedRecords := [] })) := by
  unfold flushPreparedRecords
  split
  · exact .inl ⟨m, rfl, .inl rfl⟩
  · rename_i hintents
    split
    · exact .inl ⟨m, rfl, .inl rfl⟩
    · split
      · exact .inl ⟨_, rfl, .inr rfl⟩
      · split
        · exact .inl ⟨m, rfl, .inl rfl⟩
        · exact .inr ⟨hintents, rfl⟩

/-- The checks before the flush do not look at the journal. -/
theorem flushPreparedRecords_compact (lease : Lease) (minimum : ℕ) :
    ((m.compactJournal minimum).flushPreparedRecords lease).1 =
      (m.flushPreparedRecords lease).1 := by
  unfold flushPreparedRecords
  simp only [apply_ite Prod.fst]
  rfl

/-- **A flush puts the buffered records of the open transaction into the log.** -/
theorem Aligned.flush (h : Aligned codec m evidence floor σ) (hnotIdle : m.state ≠ .idle)
    (hbuffered : m.bufferedPreparedRecords ≠ [])
    (hintents : ¬ (m.pendingMutations.any fun mutation =>
      carriesIntent (toWalOperation mutation.kind)) = true) :
    AppendsTo codec m evidence floor σ
      { m with
        journal := m.journal ++ m.identifiedRecords
        bufferedPreparedRecords := [] } evidence := by
  have hlive := h.live
  have hopen := hlive.opened hnotIdle
  have hnext := hlive.nextSequence
  have hlimit := hlive.sequence_le
  have hunwritten := hlive.unwritten
  have hplain := hopen.stage.carriesIntent_eq_false hintents
  have habove := hlive.buffered_above hopen
  obtain ⟨sequence, hpath, hlt⟩ := prepareAll_path
    (fun record hrecord => ⟨(hopen.stage.prepared record (hopen.stage.mem_staged hrecord)).1,
      hplain record (hopen.stage.mem_staged hrecord)⟩) hopen.lt hlive.buffered hunwritten.1
    (by omega)
  rw [← hopen.stage.split, ← hopen.stage.identifiedRecords] at hpath
  have hkept := h.kept.appendAll hpath (fun record hrecord => (habove record hrecord).1)
    fun record hrecord => (habove record hrecord).2
  have hstaged : evidence.staged ≠ [] := by
    intro hnil
    have hsplit := hopen.stage.split
    rw [hnil] at hsplit
    exact hbuffered (List.append_eq_nil_iff.mp hsplit.symm).2
  refine ⟨m.identifiedRecords, _, rfl, hpath, habove, h.path, h.continuation, hkept, h.settled,
    fun hempty => absurd hempty hstaged, fun _ => ?_⟩
  refine ⟨⟨?_, ?_⟩, rfl, rfl, hlimit, hlive.transaction_le, hlive.intent, hlive.unambiguous,
    hlive.watermarks.congr rfl rfl rfl rfl rfl, fun hidle => absurd hidle hnotIdle, fun _ => ?_⟩
  · change sequence < m.nextSequence
    rw [hnext]
    have hlength : m.bufferedPreparedRecords.length = m.identifiedRecords.length := by
      rw [hopen.stage.identifiedRecords]
    omega
  · change floor ≤ m.nextSequence
    omega
  · exact ⟨hopen.current, hopen.next, hopen.lt,
      ⟨(List.append_nil _).symm, hopen.stage.operations, hopen.stage.prepared, by simp⟩,
      hopen.sequences, hplain⟩

/-- **A flush is served, whatever room it finds.** -/
theorem served_flushPreparedRecords (h : ConsistentAt codec m evidence floor σ) (room : Room)
    (lease : Lease)
    (hroom : RoomAdmitted m.journal room
      (m.safeCompactionFloor m.firstPreparedSequenceToKeep)) :
    Served codec m evidence σ (m.flushPreparedRecordsWithin room lease).2 evidence := by
  unfold flushPreparedRecordsWithin
  split
  · rename_i hbuffered
    have hsame : (m.flushPreparedRecords lease).2 = m := by
      unfold flushPreparedRecords
      rw [if_pos hbuffered]
      split_ifs <;> rfl
    rw [hsame]
    exact h.served rfl rfl
  · rename_i hbuffered
    by_cases hvalid : m.recoveryStateValid = true
    swap
    · -- a poisoned manager refuses before it reaches the journal
      have hrefused : m.flushPreparedRecords lease = (false, m) := by
        unfold flushPreparedRecords
        have hpoisoned : m.recoveryStateValid = false := by simpa using hvalid
        simp [hpoisoned]
      have hsame : m.withRoom room m.firstPreparedSequenceToKeep
          (fun m => m.flushPreparedRecords lease) = (false, m) := withRoom_of_refused hrefused
      rw [hsame]
      exact h.served rfl rfl
    have haligned := h.aligned hvalid
    have hlive := haligned.live
    have hnotIdle : m.state ≠ .idle := fun hidle => hbuffered (hlive.closed hidle).2.1
    have hopen := hlive.opened hnotIdle
    have hfirst : m.firstPreparedSequenceToKeep = m.firstSequenceToKeep := by
      unfold firstPreparedSequenceToKeep firstSequenceToKeep
      cases hpending : m.pendingMutations with
      | nil =>
        have hstaged : evidence.staged = [] := by
          have := hopen.sequences
          rw [hpending] at this
          exact List.map_eq_nil_iff.mp this.symm
        have hsplit := hopen.stage.split
        rw [hstaged] at hsplit
        exact absurd (List.append_eq_nil_iff.mp hsplit.symm).2 hbuffered
      | cons first rest => rfl
    have hpreferred : Preferred m σ evidence.log m.firstPreparedSequenceToKeep := by
      have hnext := hlive.nextSequence
      have hlimit := hlive.sequence_le
      have hlength := List.length_pos_iff.mpr hbuffered
      rw [hfirst]
      exact haligned.preferred hnotIdle (by omega)
    refine @withRoom_cases m room _ _ h.path
      (fun result => Served codec m evidence σ result.2 evidence) ?_ ?_ ?_ ?_ ?_
    · intro m' hflush
      rcases flushPreparedRecords_cases lease h.path hbuffered with
        ⟨m'', hrefused, hm''⟩ | ⟨-, hflushed⟩
      · obtain rfl : m'' = m' := congrArg Prod.snd (hrefused.symm.trans hflush)
        rcases hm'' with rfl | rfl
        · exact h.served rfl rfl
        · exact ConsistentAt.served (h.of_poisoned rfl rfl rfl rfl rfl rfl) rfl rfl
      · simp [hflushed] at hflush
    · intro m' hflush
      rcases flushPreparedRecords_cases lease h.path hbuffered with
        ⟨m'', hrefused, -⟩ | ⟨hintents, hflushed⟩
      · simp [hrefused] at hflush
      · obtain rfl := congrArg Prod.snd (hflushed.symm.trans hflush)
        exact (haligned.flush hnotIdle hbuffered hintents).served h.kept
    · rintro rfl htrue
      have hcompacted := haligned.compact hpreferred (hroom.1 rfl)
      have hretry := (flushPreparedRecords_compact lease
        (m.safeCompactionFloor m.firstPreparedSequenceToKeep)).trans htrue
      rcases flushPreparedRecords_cases lease hcompacted.path hbuffered with
        ⟨m'', hrefused, -⟩ | ⟨hintents, hflushed⟩
      · rw [hrefused] at hretry
        cases hretry
      · rw [hflushed]
        exact (hcompacted.flush hnotIdle hbuffered hintents).served_compact hcompacted.kept
    · intro ambiguous hstopped htrue
      have hcompacted := h.compact hvalid hpreferred (hroom.1 (by rw [hstopped]; rfl))
        fun _ => hroom.2 ambiguous hstopped
      exact ConsistentAt.served_compact (hcompacted.of_poisoned rfl rfl rfl rfl rfl rfl) rfl rfl
    · intro ambiguous _
      exact ConsistentAt.served (h.of_poisoned rfl rfl rfl rfl rfl rfl) rfl rfl

end Batch

end TransactionManager
end Journal
end ApfsAccess
