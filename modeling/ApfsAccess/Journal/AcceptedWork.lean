import ApfsAccess.Journal.CompactionRecovery

/-!
# Accepted work beside direct commits

A direct commit writes a checkpointed marker, and a reader of the log takes such a
marker for a durable watermark: everything accepted before it counts as applied.  The
live manager keeps the two apart.  Accepted work therefore survives exactly as long as
nothing accepted is still unapplied when a direct commit is made, which is the
condition `Orderly` adds to a run.

* `Accounted` : what the log calls durable was marked durable.
* `Ordered` : an accepted boundary that is not yet durable lies above every direct
  commit.
-/

namespace ApfsAccess
namespace Journal

/-- An accepted transaction above every sequence that was marked durable. -/
def Evidence.Unmarked (evidence : Evidence) (boundary : Boundary) : Prop :=
  boundary ∈ evidence.settled ∧ boundary.committed = false ∧
    ∀ mark ∈ evidence.marks, mark < boundary.sequence

namespace TransactionManager

variable {codec : WalCodec}

/-- The condition on a request: a direct commit finds no unapplied accepted work, and a
compaction keeps what it has to keep. -/
def Orderly (codec : WalCodec) (m : TransactionManager) : Request → Prop
  | .commit room _ _ => m.hasUnappliedAcceptedWork = false ∧
      RoomAdmitted m.journal room (m.safeCompactionFloor m.firstSequenceToKeep)
  | .markApfsDurableThrough room lease _ _ _ =>
    RoomAdmitted m.journal room ((m.reseedUnlessHeld codec lease).2.safeCompactionFloor
      (m.reseedUnlessHeld codec lease).2.firstUncleanedSequence)
  | request => m.Admissible codec request

/-- The condition on a run. -/
def OrderlyRun (codec : WalCodec) (s : TransactionManager × Evidence) : List Request → Prop
  | [] => True
  | request :: requests => s.1.Orderly codec request ∧
      OrderlyRun codec (TransactionManager.advance codec s request) requests

/-- What the log calls durable was marked durable. -/
def Accounted (σ : LogState) (marks : List ℕ) : Prop :=
  ∀ boundary ∈ σ.history, boundary.committed = false →
    boundary.sequence ≤ σ.watermarks.apfsDurableSequence → ∃ mark ∈ marks, boundary.sequence ≤ mark

/-- An accepted boundary that is not yet durable lies above every direct commit. -/
def Ordered (m : TransactionManager) : Prop :=
  m.recoveryStateValid = true → ∀ boundary ∈ m.acceptedBoundaries,
    m.watermarks.apfsDurableSequence < boundary → m.highestCheckpointedMarkerSequence < boundary

/-! ## The checkpointed records of a log -/

section Log

variable {σ σ' : LogState} {marks : List ℕ}

/-- One record keeps the account when a checkpointed marker finds nothing unmarked and
a checkpointed watermark names a mark. -/
theorem Accounted.appends {record : Record} (h : Accounted σ marks)
    (happends : Appends codec σ record σ') (hσ : σ.Sound)
    (hmarker : record.operation = .transactionMarker → record.state = .checkpointed →
      ∀ boundary ∈ σ.history, boundary.committed = false →
        ∃ mark ∈ marks, boundary.sequence ≤ mark)
    (hmark : record.operation = .durabilityWatermark → record.state = .checkpointed →
      record.logicalOffset ∈ marks) :
    Accounted σ' marks := by
  cases happends with
  | prepare => exact h
  | abort => exact h
  | settle committed next _ _ marker state =>
    intro boundary hboundary haccepted hdurable
    rcases List.mem_append.mp hboundary with hold | hnew
    · cases committed with
      | true => exact hmarker marker.operation state boundary hold haccepted
      | false => exact h boundary hold haccepted hdurable
    · rw [List.mem_singleton.mp hnew] at haccepted hdurable
      obtain rfl : committed = false := haccepted
      change record.sequence ≤ σ.watermarks.apfsDurableSequence at hdurable
      have := hσ.durable_le
      have := hσ.accepted_le
      omega
  | mark cleaned _ _ _ operation _ _ _ state =>
    cases cleaned with
    | true => exact h
    | false =>
      intro boundary hboundary haccepted hdurable
      exact ⟨record.logicalOffset, hmark operation state, hdurable⟩

/-- A stretch of the log keeps the account. -/
theorem Accounted.path {records : List Record} (h : Accounted σ marks)
    (hpath : Path codec σ records σ') (hσ : σ.Sound)
    (hmarker : (∃ record ∈ records, record.operation = .transactionMarker ∧
        record.state = .checkpointed) →
      ∀ boundary ∈ σ.history, boundary.committed = false →
        ∃ mark ∈ marks, boundary.sequence ≤ mark)
    (haccepted : ∀ record ∈ records, record.operation = .transactionMarker →
      record.state = .accepted → ∀ other ∈ records, other.operation = .transactionMarker →
        other.state ≠ .checkpointed)
    (hmark : ∀ record ∈ records, record.operation = .durabilityWatermark →
      record.state = .checkpointed → record.logicalOffset ∈ marks) :
    Accounted σ' marks := by
  induction hpath with
  | nil => exact h
  | @cons σ σ₁ σ₂ first rest head tail ih =>
    have hfirst := h.appends head hσ
      (fun hop hstate => hmarker ⟨first, List.mem_cons_self, hop, hstate⟩)
      (hmark first List.mem_cons_self)
    refine ih hfirst (head.sound hσ) ?_ ?_ fun record hrecord =>
      hmark record (List.mem_cons_of_mem _ hrecord)
    · rintro ⟨record, hrecord, hop, hstate⟩ boundary hboundary hcommitted
      have hold := hmarker ⟨record, List.mem_cons_of_mem _ hrecord, hop, hstate⟩
      cases head with
      | settle committed _ _ _ marker state =>
        rcases List.mem_append.mp hboundary with hmem | hnew
        · exact hold boundary hmem hcommitted
        · rw [List.mem_singleton.mp hnew] at hcommitted
          obtain rfl : committed = false := hcommitted
          exact absurd hstate (haccepted first List.mem_cons_self marker.operation state record
            (List.mem_cons_of_mem _ hrecord) hop)
      | _ => exact hold boundary hboundary hcommitted
    · intro record hrecord hop hstate other hother
      exact haccepted record (List.mem_cons_of_mem _ hrecord) hop hstate other
        (List.mem_cons_of_mem _ hother)

end Log

/-! ## The records of a request -/

/-- Whether a request is a direct commit. -/
def isDirectCommit : Request → Bool
  | .commit _ _ _ => true
  | _ => false

/-- The sequence a request marks durable. -/
def durableTarget : Request → Option ℕ
  | .markApfsDurableThrough _ _ _ _ sequence => some sequence
  | _ => none

/-- What the checkpointed records that a request writes are. -/
structure Writes (request : Request) (ok : Bool) (record : Record) : Prop where
  marker : record.operation = .transactionMarker →
    (record.state = .checkpointed ↔ isDirectCommit request = true)
  watermark : record.operation = .durabilityWatermark → record.state = .checkpointed →
    ok = true ∧ durableTarget request = some record.logicalOffset

section Records

variable {m : TransactionManager} {evidence : Evidence} {floor : ℕ} {σ : LogState}
  {request : Request}

/-- A mutation record is neither a marker nor a watermark. -/
theorem Writes.of_prepared {record : Record} {bound : ℕ} {ok : Bool}
    (h : PreparedFor record bound) : Writes request ok record :=
  ⟨fun hop => absurd hop h.ne_marker, fun hop => absurd hop h.ne_watermark⟩

/-- The records behind an append that finds `room`: the old ones, an index, and what
the append writes. -/
theorem withRoom_journal {room : Room} {preferred : ℕ}
    {append : TransactionManager → Bool × TransactionManager} {P : Bool → Record → Prop}
    (hpath : m.journalPath ≠ "")
    (happend : ∀ journal, ∀ record ∈ (append { m with journal }).2.journal,
      record ∈ journal ∨ P (append { m with journal }).1 record) :
    ∀ record ∈ (m.withRoom room preferred append).2.journal, record ∈ m.journal ∨
      record.operation = .compactionIndex ∨ P (m.withRoom room preferred append).1 record := by
  have hkept : ∀ minimum, ∀ record ∈ (m.compactJournal minimum).journal,
      record ∈ m.journal ∨ record.operation = .compactionIndex := by
    intro minimum record hrecord
    rcases List.mem_append.mp hrecord with hold | hnew
    · exact .inl (List.mem_filter.mp hold).1
    · rw [List.mem_singleton.mp hnew]
      exact .inr rfl
  refine @withRoom_cases m room preferred append hpath (fun result => ∀ record ∈ result.2.journal,
    record ∈ m.journal ∨ record.operation = .compactionIndex ∨ P result.1 record) ?_ ?_ ?_ ?_ ?_
  · intro m' hresult record hrecord
    have := happend m.journal record
    rw [show ({ m with journal := m.journal } : TransactionManager) = m from rfl, hresult] at this
    exact (this hrecord).imp id .inr
  · intro m' hresult record hrecord
    have := happend m.journal record
    rw [show ({ m with journal := m.journal } : TransactionManager) = m from rfl, hresult] at this
    exact (this hrecord).imp id .inr
  · intro _ _ record hrecord
    rcases happend (m.compactJournal (m.safeCompactionFloor preferred)).journal record hrecord with
      hold | hnew
    · exact (hkept _ record hold).imp id .inl
    · exact .inr (.inr hnew)
  · intro ambiguous _ _ record hrecord
    exact (hkept _ record hrecord).imp id .inl
  · intro ambiguous _ record hrecord
    exact .inl hrecord

/-- The records of a batch: its mutation records and its marker. -/
theorem persistTransactionBatchLocked_journal (hpath : m.journalPath ≠ "") (lease : Lease)
    (outcome : Outcome) (preimage : ℕ) :
    ∀ record ∈ (m.persistTransactionBatchLocked codec lease outcome preimage).2.journal,
      record ∈ m.journal ∨ record ∈ m.identifiedRecords ∨
        record = m.buildTransactionMarkerLocked outcome preimage := by
  intro record hrecord
  cases hresult : m.persistTransactionBatchLocked codec lease outcome preimage with
  | mk ok m' =>
    rw [hresult] at hrecord
    cases ok with
    | false =>
      rcases persistTransactionBatchLocked_eq_false hresult hpath with rfl | rfl <;>
        exact .inl hrecord
    | true =>
      obtain ⟨-, -, rfl⟩ := persistTransactionBatchLocked_eq_true hresult hpath
      have hjournal : record ∈ m.journal ++ m.identifiedRecords ++
          [m.buildTransactionMarkerLocked outcome preimage] := by
        cases outcome <;> exact hrecord
      simpa only [List.mem_append, List.mem_singleton, or_assoc] using hjournal

/-- The records of `PersistTransactionBatchLocked`, whatever room it finds. -/
theorem persistWithin_writes (hpath : m.journalPath ≠ "") (room : Room) (lease : Lease)
    {outcome : Outcome} (preimage : ℕ)
    (hbuffered : ∀ record ∈ m.identifiedRecords, ∃ bound, PreparedFor record bound)
    (hcommit : outcome = .committed ↔ isDirectCommit request = true) (ok : Bool) :
    ∀ record ∈ (m.persistWithin codec room lease outcome preimage).2.journal,
      record ∈ m.journal ∨ record.operation = .compactionIndex ∨ Writes request ok record := by
  refine @withRoom_journal m room _ _ (fun _ record => Writes request ok record) hpath ?_
  intro journal record hrecord
  rcases persistTransactionBatchLocked_journal (m := { m with journal }) hpath lease outcome
    preimage record hrecord with hold | hmutation | rfl
  · exact .inl hold
  · obtain ⟨bound, hprepared⟩ := hbuffered record hmutation
    exact .inr (.of_prepared hprepared)
  · refine .inr ⟨fun _ => ?_, fun hop => absurd hop (by simp [buildTransactionMarkerLocked])⟩
    rw [← hcommit]
    cases outcome <;> simp [buildTransactionMarkerLocked]

/-- The one record of `AppendWatermarkLocked`, whatever room it finds. -/
theorem appendWatermarkWithin_journal (hpath : m.journalPath ≠ "") (room : Room) (lease : Lease)
    (recordState : RecordState) (target : ℕ) :
    ∀ record ∈ (m.appendWatermarkWithin room lease recordState target).2.journal,
      record ∈ m.journal ∨ record.operation = .compactionIndex ∨
        ((m.appendWatermarkWithin room lease recordState target).1 = true ∧
          record.operation = .durabilityWatermark ∧ record.state = recordState ∧
          record.logicalOffset = target) := by
  refine @withRoom_journal m room _ _ (fun ok record => ok = true ∧
    record.operation = .durabilityWatermark ∧ record.state = recordState ∧
    record.logicalOffset = target) hpath ?_
  intro journal record hrecord
  rcases @appendWatermarkLocked_cases { m with journal } lease recordState target hpath with
    ⟨m'', hrefused, rfl | rfl⟩ | ⟨-, happended⟩
  · rw [hrefused] at hrecord
    exact .inl hrecord
  · rw [hrefused] at hrecord
    exact .inl hrecord
  · rw [happended] at hrecord ⊢
    rcases List.mem_append.mp hrecord with hmem | hnew
    · exact .inl hmem
    · rw [List.mem_singleton.mp hnew]
      exact .inr ⟨rfl, rfl, rfl, rfl⟩

/-- Seeding reads the journal. -/
theorem seedIdsFromJournalRecords_journal (m : TransactionManager) (records : List Record) :
    (m.seedIdsFromJournalRecords codec records).2.journal = m.journal ∧
      (m.seedIdsFromJournalRecords codec records).2.journalPath = m.journalPath := by
  unfold seedIdsFromJournalRecords
  split
  · exact ⟨rfl, rfl⟩
  · split
    · exact ⟨rfl, rfl⟩
    · exact ⟨rfl, rfl⟩

theorem seedIdsFromExistingJournal_journal (m : TransactionManager) (lease : Lease) :
    (m.seedIdsFromExistingJournal codec lease).2.journal = m.journal ∧
      (m.seedIdsFromExistingJournal codec lease).2.journalPath = m.journalPath := by
  unfold seedIdsFromExistingJournal
  split
  · exact ⟨rfl, rfl⟩
  · split
    · exact ⟨rfl, rfl⟩
    · split
      · exact ⟨rfl, rfl⟩
      · exact seedIdsFromJournalRecords_journal m m.journal

theorem reseedUnlessHeld_journal (m : TransactionManager) (lease : Lease) :
    (m.reseedUnlessHeld codec lease).2.journal = m.journal ∧
      (m.reseedUnlessHeld codec lease).2.journalPath = m.journalPath := by
  unfold reseedUnlessHeld
  split
  · exact ⟨rfl, rfl⟩
  · exact seedIdsFromExistingJournal_journal m lease

/-- The one record of a mark, which is there only when the mark succeeds. -/
theorem markWithin_journal (hpath : m.journalPath ≠ "") (room : Room) (lease appendLease : Lease)
    (flushed cleaned : Bool) (target : ℕ) :
    let marked := m.markWithin codec room lease appendLease flushed (watermarkState cleaned)
      (lowerWatermark cleaned) (upperWatermark cleaned) (advanceWatermark cleaned target) target
    ∀ record ∈ marked.2.journal, record ∈ m.journal ∨ record.operation = .compactionIndex ∨
      (marked.1 = true ∧ record.operation = .durabilityWatermark ∧
        record.state = watermarkState cleaned ∧ record.logicalOffset = target) := by
  have hreseed := @reseedUnlessHeld_journal codec m lease
  rw [markWithin_eq]
  split
  · exact fun record hrecord => .inl hrecord
  · cases hresult : m.reseedUnlessHeld codec lease with
    | mk ok m' =>
      rw [hresult] at hreseed
      obtain ⟨hjournal, hsame⟩ := hreseed
      have hold : ∀ record ∈ m'.journal, record ∈ m.journal := fun record hrecord =>
        hjournal ▸ hrecord
      cases ok with
      | false => exact fun record hrecord => .inl (hold record hrecord)
      | true =>
        dsimp only
        split
        · exact fun record hrecord => .inl (hold record hrecord)
        · split
          · exact fun record hrecord => .inl (hold record hrecord)
          · split
            · exact fun record hrecord => .inl (hold record hrecord)
            · obtain ⟨durable, failed, hensured⟩ :=
                @ensureDeferredAcceptanceDurability_snd m' target flushed
              cases hensure : m'.ensureDeferredAcceptanceDurability target flushed with
              | mk ok ensured =>
                rw [hensure] at hensured
                obtain rfl : ensured = _ := hensured
                cases ok with
                | false => exact fun record hrecord => .inl (hold record hrecord)
                | true =>
                  have hsplit : ∀ result : Bool × TransactionManager,
                      (advanceIfAppended (advanceWatermark cleaned target) result).2.journal =
                          result.2.journal ∧
                        (advanceIfAppended (advanceWatermark cleaned target) result).1 =
                          result.1 := by
                    rintro ⟨_ | _, _⟩ <;> cases cleaned <;> exact ⟨rfl, rfl⟩
                  intro record hrecord
                  dsimp only at hrecord ⊢
                  rw [(hsplit _).1] at hrecord
                  rw [(hsplit _).2]
                  exact (appendWatermarkWithin_journal
                    (m := { m' with
                      deferredWalDurableSequence := durable
                      deferredWalFlushFailed := failed })
                    (hsame.trans_ne hpath) room appendLease (watermarkState cleaned) target record
                    hrecord).imp (hold record) id

/-- The requests that only read the journal. -/
theorem begin_journal (m : TransactionManager) (lease : Lease) :
    (m.begin codec lease).2.journal = m.journal := by
  have hreseed := (@reseedUnlessHeld_journal codec m lease).1
  unfold TransactionManager.begin
  split
  · rfl
  · cases hresult : m.reseedUnlessHeld codec lease with
    | mk ok m' =>
      rw [hresult] at hreseed
      cases ok <;> exact hreseed

theorem recordMutation_journal (hpath : m.journalPath ≠ "") (lease : Lease)
    (mutation : MutationIntent) :
    (m.recordMutation codec lease mutation).2.journal = m.journal := by
  unfold TransactionManager.recordMutation
  split
  · rfl
  · split
    · rfl
    · cases happend : m.appendPreparedMutationLocked codec mutation with
      | none => rfl
      | some result =>
        obtain ⟨prepared, m'⟩ := result
        obtain ⟨-, -, -, -, -, rfl⟩ := appendPreparedMutationLocked_eq_some hpath happend
        rfl

theorem loadAcceptedTransactionsAfter_journal (m : TransactionManager) (lease : Lease)
    (included : Bool) :
    (m.loadAcceptedTransactionsAfter codec lease included).2.journal = m.journal := by
  have hseed := (@seedIdsFromJournalRecords_journal codec m m.journal).1
  cases hresult : m.seedIdsFromJournalRecords codec m.journal with
  | mk ok m' =>
    rw [hresult] at hseed
    unfold loadAcceptedTransactionsAfter
    rw [hresult]
    cases ok <;> simp only [apply_ite Prod.snd] <;> split_ifs <;> first | rfl | exact hseed

/-- The records of a flush: those that were buffered. -/
theorem flushPreparedRecordsWithin_journal (hpath : m.journalPath ≠ "") (room : Room)
    (lease : Lease) :
    ∀ record ∈ (m.flushPreparedRecordsWithin room lease).2.journal, record ∈ m.journal ∨
      record.operation = .compactionIndex ∨
        (m.recoveryStateValid = true ∧ record ∈ m.identifiedRecords) := by
  unfold flushPreparedRecordsWithin
  by_cases hbuffered : m.bufferedPreparedRecords = []
  · rw [if_pos hbuffered]
    intro record hrecord
    refine .inl ?_
    have hsame : (m.flushPreparedRecords lease).2 = m := by
      unfold flushPreparedRecords
      rw [if_pos hbuffered]
      split_ifs <;> rfl
    rwa [hsame] at hrecord
  · rw [if_neg hbuffered]
    refine @withRoom_journal m room _ _ (fun _ record => m.recoveryStateValid = true ∧
      record ∈ m.identifiedRecords) hpath ?_
    intro journal record hrecord
    by_cases hvalid : m.recoveryStateValid = true
    · rcases @flushPreparedRecords_cases { m with journal } lease hpath hbuffered with
        ⟨m'', hrefused, rfl | rfl⟩ | ⟨-, hflushed⟩
      · rw [hrefused] at hrecord
        exact .inl hrecord
      · rw [hrefused] at hrecord
        exact .inl hrecord
      · rw [hflushed] at hrecord
        exact (List.mem_append.mp hrecord).imp id fun hnew => ⟨hvalid, hnew⟩
    · have hpoisoned : m.recoveryStateValid = false := by simpa using hvalid
      have hrefused : (({ m with journal } : TransactionManager).flushPreparedRecords lease).2 =
          { m with journal } := by
        unfold flushPreparedRecords
        simp [hpoisoned]
      rw [hrefused] at hrecord
      exact .inl hrecord

/-- **What the checkpointed records of a request are.** -/
theorem serve_writes (h : ConsistentAt codec m evidence floor σ) :
    ∀ record ∈ (m.serve codec request).2.journal, record ∈ m.journal ∨
      record.operation = .compactionIndex ∨
      Writes request (m.serve codec request).1 record := by
  have hsame : ∀ {m' : TransactionManager}, m'.journal = m.journal → ∀ ok,
      ∀ record ∈ m'.journal, record ∈ m.journal ∨ record.operation = .compactionIndex ∨
        Writes request ok record := fun hjournal _ record hrecord => .inl (hjournal ▸ hrecord)
  -- the buffered records of a manager that is not poisoned are mutation records
  have hbuffered : m.recoveryStateValid = true → m.state ≠ .idle →
      ∀ record ∈ m.identifiedRecords, ∃ bound, PreparedFor record bound := by
    intro hvalid hnotIdle record hrecord
    have hopen := (h.live hvalid).opened hnotIdle
    rw [hopen.stage.identifiedRecords] at hrecord
    exact ⟨_, (hopen.stage.prepared record (hopen.stage.mem_staged hrecord)).1⟩
  -- the end of an acceptance or a commit
  have hbatch : ∀ {outcome : Outcome} (room : Room) (lease : Lease) (preimage : ℕ),
      m.recoveryStateValid = true → m.state = .active →
      (outcome = .committed ↔ isDirectCommit request = true) → ∀ ok,
      ∀ record ∈ (m.persistAndClose codec room lease outcome preimage).2.journal,
        record ∈ m.journal ∨ record.operation = .compactionIndex ∨ Writes request ok record := by
    intro outcome room lease preimage hvalid hactive hcommit ok record hrecord
    have hclosed : ∀ result : Bool × TransactionManager,
        (closeOrFail result).2.journal = result.2.journal := by
      rintro ⟨_ | _, _⟩ <;> rfl
    unfold persistAndClose at hrecord
    rw [hclosed] at hrecord
    exact persistWithin_writes (m := { m with state := .committing }) h.path room lease preimage
      (hbuffered hvalid (by simp [hactive])) hcommit ok record hrecord
  cases request with
  | begin lease => exact hsame (begin_journal m lease) _
  | recordMutation lease mutation => exact hsame (recordMutation_journal h.path lease mutation) _
  | flushPreparedRecords room lease =>
    intro record hrecord
    rcases flushPreparedRecordsWithin_journal h.path room lease record hrecord with
      hold | hindex | ⟨hvalid, hnew⟩
    · exact .inl hold
    · exact .inr (.inl hindex)
    · by_cases hidle : m.state = .idle
      · have hempty := ((h.live hvalid).closed hidle).2.1
        simp [identifiedRecords, hempty] at hnew
      · obtain ⟨bound, hprepared⟩ := hbuffered hvalid hidle record hnew
        exact .inr (.inr (.of_prepared hprepared))
  | commit room lease preimage =>
    change ∀ record ∈ (m.commitWithin codec room lease preimage).2.journal, _
    unfold commitWithin
    split
    · exact hsame rfl _
    · rename_i hguard
      simp only [not_or, ne_eq, not_not, Bool.not_eq_true, Bool.not_eq_false'] at hguard
      exact hbatch room lease preimage hguard.1 hguard.2 (by simp [isDirectCommit]) _
  | accept room lease preimage =>
    change ∀ record ∈ (m.acceptWithin codec room lease preimage).2.journal, _
    unfold acceptWithin
    split
    · exact hsame rfl _
    · rename_i hguard
      simp only [not_or, ne_eq, not_not, Bool.not_eq_true, Bool.not_eq_false'] at hguard
      exact hbatch room lease preimage hguard.1 hguard.2.1 (by simp [isDirectCommit]) _
  | acceptForDeferredCommit room lease preimage =>
    obtain ⟨pending, heq⟩ := @acceptForDeferredCommitWithin_eq codec m room lease preimage
    change ∀ record ∈ (m.acceptForDeferredCommitWithin codec room lease preimage).2.journal, _
    rw [heq]
    change ∀ record ∈ (m.acceptWithin codec room lease preimage).2.journal, _
    unfold acceptWithin
    split
    · exact hsame rfl _
    · rename_i hguard
      simp only [not_or, ne_eq, not_not, Bool.not_eq_true, Bool.not_eq_false'] at hguard
      exact hbatch room lease preimage hguard.1 hguard.2.1 (by simp [isDirectCommit]) _
  | abort room lease =>
    change ∀ record ∈ (m.abortWithin codec room lease).2.journal, _
    unfold abortWithin
    split
    · exact hsame rfl _
    · split
      · exact hsame rfl _
      · split
        · exact hsame rfl _
        · intro record hrecord
          have hclosed : ∀ result : Bool × TransactionManager,
              (closeIfPersisted result).2.journal = result.2.journal := by
            rintro ⟨_ | _, _⟩ <;> rfl
          rw [hclosed] at hrecord
          exact persistWithin_writes (m := m.rewind) h.path room lease 0
            (by simp [identifiedRecords, rewind]) (by simp [isDirectCommit]) _ record hrecord
  | markApfsDurableThrough room lease appendLease flushed sequence =>
    intro record hrecord
    rcases markWithin_journal h.path room lease appendLease flushed false sequence record hrecord
      with hold | hindex | ⟨hok, hop, -, htarget⟩
    · exact .inl hold
    · exact .inr (.inl hindex)
    · refine .inr (.inr ⟨fun hmarker => ?_, fun _ _ => ⟨hok, congrArg some htarget.symm⟩⟩)
      rw [hop] at hmarker
      cases hmarker
  | markCleanedThrough room lease appendLease flushed sequence =>
    intro record hrecord
    rcases markWithin_journal h.path room lease appendLease flushed true sequence record hrecord
      with hold | hindex | ⟨-, hop, hstate, -⟩
    · exact .inl hold
    · exact .inr (.inl hindex)
    · refine .inr (.inr ⟨fun hmarker => ?_, fun _ hchecked => ?_⟩)
      · rw [hop] at hmarker
        cases hmarker
      · rw [hstate] at hchecked
        cases hchecked
  | ensureDeferredAcceptanceDurability sequence flushed =>
    obtain ⟨durable, failed, hensured⟩ :=
      @ensureDeferredAcceptanceDurability_snd m sequence flushed
    have hjournal : (m.ensureDeferredAcceptanceDurability sequence flushed).2.journal =
        m.journal := by
      rw [hensured]
    exact hsame hjournal _
  | loadAcceptedTransactionsAfter lease included =>
    exact hsame (loadAcceptedTransactionsAfter_journal m lease included) _
  | restart lease =>
    have hjournal : (m.restart codec lease).2.journal = m.journal :=
      (seedIdsFromExistingJournal_journal _ lease).1
    exact hsame hjournal _

end Records

/-! ## The boundaries in memory -/

section Boundaries

variable {m m' : TransactionManager} {evidence : Evidence} {floor : ℕ} {σ : LogState}
  {request : Request}

theorem Ordered.of_poisoned (h : m.recoveryStateValid = false) : Ordered m := by
  intro hvalid
  rw [h] at hvalid
  cases hvalid

/-- The order is a matter of a few fields. -/
theorem Ordered.congr (h : Ordered m) (hvalid : m'.recoveryStateValid = m.recoveryStateValid)
    (hwatermarks : m'.watermarks = m.watermarks)
    (hboundaries : m'.acceptedBoundaries = m.acceptedBoundaries)
    (hhighest : m'.highestCheckpointedMarkerSequence = m.highestCheckpointedMarkerSequence) :
    Ordered m' := by
  unfold Ordered
  rw [hvalid, hwatermarks, hboundaries, hhighest]
  exact h

/-- A manager that has been reseeded knows a direct commit as durable. -/
theorem Ordered.of_reseeded (h : Ordered m)
    (hreseed : m' = m ∨ m'.highestCheckpointedMarkerSequence ≤ m'.watermarks.apfsDurableSequence ∨
      m'.recoveryStateValid = false) : Ordered m' := by
  rcases hreseed with rfl | hle | hpoisoned
  · exact h
  · exact fun _ boundary _ hlt => lt_of_le_of_lt hle hlt
  · exact .of_poisoned hpoisoned

/-- An append that finds `room` runs on some journal, or poisons the manager. -/
theorem withRoom_eq_append {room : Room} {preferred : ℕ}
    {append : TransactionManager → Bool × TransactionManager} (hpath : m.journalPath ≠ "") :
    (m.withRoom room preferred append).2.recoveryStateValid = false ∨
      ∃ journal, m.withRoom room preferred append = append { m with journal } := by
  refine @withRoom_cases m room preferred append hpath (fun result =>
    result.2.recoveryStateValid = false ∨ ∃ journal, result = append { m with journal })
    ?_ ?_ ?_ ?_ ?_
  · exact fun m' hresult => .inr ⟨m.journal, hresult.symm⟩
  · exact fun m' hresult => .inr ⟨m.journal, hresult.symm⟩
  · exact fun _ _ => .inr ⟨_, rfl⟩
  · exact fun _ _ _ => .inl rfl
  · exact fun _ _ => .inl rfl

/-- A batch keeps the order: an acceptance adds a boundary above everything written,
and a direct commit finds no boundary that is not durable. -/
theorem Ordered.persist (h : Ordered m) (hconsistent : ConsistentAt codec m evidence floor σ)
    (hvalid : m.recoveryStateValid = true) (room : Room) (lease : Lease) (outcome : Outcome)
    (preimage : ℕ) (hcommit : outcome = .committed → m.hasUnappliedAcceptedWork = false)
    (m₀ : TransactionManager) (hpath : m₀.journalPath = m.journalPath)
    (hsame : m₀.recoveryStateValid = m.recoveryStateValid ∧ m₀.watermarks = m.watermarks ∧
      m₀.acceptedBoundaries = m.acceptedBoundaries ∧
      m₀.highestCheckpointedMarkerSequence = m.highestCheckpointedMarkerSequence ∧
      σ.sequence < m₀.nextSequence) :
    Ordered (m₀.persistWithin codec room lease outcome preimage).2 := by
  obtain ⟨hvalid₀, hwatermarks, hboundaries, hhighest, hnext⟩ := hsame
  have hpath₀ : m₀.journalPath ≠ "" := hpath.trans_ne hconsistent.path
  have hmarks := (hconsistent.live hvalid).watermarks
  have hσ := hconsistent.kept.path.sound LogState.sound_initial
  rcases @withRoom_eq_append m₀ room m₀.firstSequenceToKeep
    (fun m => m.persistTransactionBatchLocked codec lease outcome preimage) hpath₀ with
    hpoisoned | ⟨journal, heq⟩
  · exact .of_poisoned hpoisoned
  · unfold persistWithin
    rw [heq]
    cases hresult : ({ m₀ with journal } : TransactionManager).persistTransactionBatchLocked
        codec lease outcome preimage with
    | mk ok m' =>
      cases ok with
      | false =>
        rcases persistTransactionBatchLocked_eq_false hresult hpath₀ with rfl | rfl
        · exact h.congr hvalid₀ hwatermarks hboundaries hhighest
        · exact .of_poisoned rfl
      | true =>
        obtain ⟨-, -, rfl⟩ := persistTransactionBatchLocked_eq_true hresult hpath₀
        cases outcome with
        | aborted => exact h.congr hvalid₀ hwatermarks hboundaries hhighest
        | accepted =>
          intro _ boundary hboundary hlt
          change boundary ∈ insert m₀.nextSequence m₀.acceptedBoundaries at hboundary
          change m₀.watermarks.apfsDurableSequence < boundary at hlt
          change m₀.highestCheckpointedMarkerSequence < boundary
          rw [hboundaries] at hboundary
          rw [hwatermarks] at hlt
          rw [hhighest]
          rcases Finset.mem_insert.mp hboundary with rfl | hold
          · have := hmarks.highest_written
            have := hσ.accepted_le
            omega
          · exact h hvalid boundary hold hlt
        | committed =>
          intro _ boundary hboundary hlt
          change boundary ∈ m₀.acceptedBoundaries at hboundary
          change m₀.watermarks.apfsDurableSequence < boundary at hlt
          rw [hboundaries] at hboundary
          rw [hwatermarks] at hlt
          have happlied : m.watermarks.acceptedSequence ≤ m.watermarks.apfsDurableSequence := by
            simpa [hasUnappliedAcceptedWork] using hcommit rfl
          have := (hmarks.boundaries boundary hboundary).2.2.1
          omega

theorem Ordered.persistAndClose (h : Ordered m)
    (hconsistent : ConsistentAt codec m evidence floor σ) (hvalid : m.recoveryStateValid = true)
    (room : Room) (lease : Lease) (outcome : Outcome) (preimage : ℕ)
    (hcommit : outcome = .committed → m.hasUnappliedAcceptedWork = false) :
    Ordered (m.persistAndClose codec room lease outcome preimage).2 := by
  have hunwritten := (hconsistent.live hvalid).unwritten_le.1
  have hpersist := h.persist hconsistent hvalid room lease outcome preimage hcommit
    { m with state := .committing } rfl ⟨rfl, rfl, rfl, rfl, hunwritten⟩
  have hclosed : ∀ result : Bool × TransactionManager, Ordered result.2 →
      Ordered (closeOrFail result).2 := by
    rintro ⟨_ | _, _⟩ hresult <;> exact hresult
  exact hclosed _ hpersist

/-- Moving a watermark up, or dropping boundaries, keeps the order. -/
theorem Ordered.advanced (h : Ordered m) {cleaned : Bool} {target : ℕ}
    (hlower : lowerWatermark cleaned m.watermarks ≤ target) :
    Ordered (advanceWatermark cleaned target m) := by
  intro hvalid boundary hboundary hlt
  cases cleaned with
  | true => exact h hvalid boundary (Finset.mem_filter.mp hboundary).1 hlt
  | false => exact h hvalid boundary hboundary (lt_of_le_of_lt hlower hlt)

theorem Ordered.appendWatermark (h : Ordered m) (hpath : m.journalPath ≠ "") (room : Room)
    (lease : Lease) {cleaned : Bool} {target : ℕ}
    (hlower : lowerWatermark cleaned m.watermarks ≤ target) :
    Ordered (advanceIfAppended (TransactionManager.advanceWatermark cleaned target)
      (m.appendWatermarkWithin room lease (watermarkState cleaned) target)).2 := by
  rcases @withRoom_eq_append m room m.firstUncleanedSequence
    (fun m => m.appendWatermarkLocked lease (watermarkState cleaned) target) hpath with
    hpoisoned | ⟨journal, heq⟩
  · have hclosed : ∀ result : Bool × TransactionManager, result.2.recoveryStateValid = false →
        (advanceIfAppended (TransactionManager.advanceWatermark cleaned target)
          result).2.recoveryStateValid = false := by
      rintro ⟨_ | _, _⟩ hresult <;> cases cleaned <;> exact hresult
    exact .of_poisoned (hclosed _ hpoisoned)
  · unfold appendWatermarkWithin
    rw [heq]
    rcases @appendWatermarkLocked_cases { m with journal } lease (watermarkState cleaned) target
      hpath with ⟨m', hrefused, rfl | rfl⟩ | ⟨-, happended⟩
    · rw [hrefused]
      exact h
    · rw [hrefused]
      exact .of_poisoned rfl
    · rw [happended]
      change Ordered (TransactionManager.advanceWatermark cleaned target _)
      refine Ordered.advanced ?_ ?_
      · exact h.congr rfl rfl rfl rfl
      · exact hlower

/-- A mark keeps the order. -/
theorem Ordered.markWithin (h : Ordered m) (hconsistent : ConsistentAt codec m evidence floor σ)
    (room : Room) (lease appendLease : Lease) (flushed cleaned : Bool) (target : ℕ) :
    Ordered (m.markWithin codec room lease appendLease flushed (watermarkState cleaned)
      (lowerWatermark cleaned) (upperWatermark cleaned) (advanceWatermark cleaned target)
      target).2 := by
  rw [markWithin_eq]
  split
  · exact h
  · rename_i hguard
    simp only [not_or, Bool.not_eq_true, Bool.not_eq_false', not_not] at hguard
    obtain ⟨ok, m', hreseed, hconsistent', -, -, -, -, hknown⟩ :=
      hconsistent.reseedUnlessHeld hguard.1 hguard.2 lease
    have hordered : Ordered m' := h.of_reseeded hknown
    rw [hreseed]
    cases ok with
    | false => exact hordered
    | true =>
      dsimp only
      split
      · exact hordered
      · rename_i hrange
        simp only [not_or, not_lt] at hrange
        split
        · exact hordered
        · split
          · exact hordered
          · obtain ⟨durable, failed, hensured⟩ :=
              @ensureDeferredAcceptanceDurability_snd m' target flushed
            cases hensure : m'.ensureDeferredAcceptanceDurability target flushed with
            | mk ok ensured =>
              rw [hensure] at hensured
              obtain rfl : ensured = _ := hensured
              cases ok with
              | false => exact .of_poisoned rfl
              | true =>
                exact Ordered.appendWatermark
                  (m := { m' with
                    deferredWalDurableSequence := durable
                    deferredWalFlushFailed := failed })
                  hordered hconsistent'.path room appendLease hrange.1

theorem Ordered.acceptWithin (h : Ordered m)
    (hconsistent : ConsistentAt codec m evidence floor σ) (room : Room) (lease : Lease)
    (preimage : ℕ) : Ordered (m.acceptWithin codec room lease preimage).2 := by
  unfold TransactionManager.acceptWithin
  split
  · exact h
  · rename_i hguard
    simp only [not_or, ne_eq, not_not, Bool.not_eq_true, Bool.not_eq_false'] at hguard
    exact h.persistAndClose hconsistent hguard.1 room lease .accepted preimage (by simp)

/-- Seeding from the journal leaves the order, of any manager. -/
theorem Ordered.seed {log : List Record} (hkept : Kept codec m.journal log floor σ)
    (hidle : m.state = .idle) (hcontinuation : m.continuationSeed = none) :
    Ordered (m.seedIdsFromJournalRecords codec m.journal).2 := by
  by_cases hclosed : σ.flushed = []
  · have hcut : (σ.cut floor).Sound := (hkept.path.sound LogState.sound_initial).cut
    rw [hkept.seedIdsFromJournalRecords hclosed hidle hcontinuation]
    exact fun _ boundary _ hlt => lt_of_le_of_lt hcut.highest_le hlt
  · refine .of_poisoned ?_
    have hrefused : validateWalSemantics codec m.journal = false := by
      rw [hkept.validateWalSemantics]
      exact decide_eq_false hclosed
    unfold seedIdsFromJournalRecords
    simp [hrefused]

/-- **Every orderly request keeps the order.** -/
theorem Ordered.serve (h : Ordered m) (hconsistent : ConsistentAt codec m evidence floor σ)
    (horderly : m.Orderly codec request) : Ordered (m.serve codec request).2 := by
  cases request with
  | begin lease =>
    change Ordered (m.begin codec lease).2
    unfold TransactionManager.begin
    split
    · exact h
    · rename_i hguard
      simp only [not_or, Bool.not_eq_true, Bool.not_eq_false', not_not] at hguard
      obtain ⟨ok, m', hreseed, -, -, -, -, -, hknown⟩ :=
        hconsistent.reseedUnlessHeld hguard.1 hguard.2.1 lease
      have hordered : Ordered m' := h.of_reseeded hknown
      rw [hreseed]
      cases ok <;> exact hordered
  | recordMutation lease mutation =>
    change Ordered (m.recordMutation codec lease mutation).2
    unfold TransactionManager.recordMutation
    split
    · exact h
    · split
      · exact .of_poisoned rfl
      · cases happend : m.appendPreparedMutationLocked codec mutation with
        | none => exact h
        | some result =>
          obtain ⟨prepared, m'⟩ := result
          obtain ⟨-, -, -, -, -, rfl⟩ :=
            appendPreparedMutationLocked_eq_some hconsistent.path happend
          exact h
  | flushPreparedRecords room lease =>
    change Ordered (m.flushPreparedRecordsWithin room lease).2
    have hflush : ∀ journal, Ordered
        (({ m with journal } : TransactionManager).flushPreparedRecords lease).2 := by
      intro journal
      unfold flushPreparedRecords
      split_ifs <;> first | exact h | exact .of_poisoned rfl
    unfold flushPreparedRecordsWithin
    split
    · exact hflush m.journal
    · rcases @withRoom_eq_append m room m.firstPreparedSequenceToKeep
        (fun m => m.flushPreparedRecords lease) hconsistent.path with hpoisoned | ⟨journal, heq⟩
      · exact .of_poisoned hpoisoned
      · rw [heq]
        exact hflush journal
  | commit room lease preimage =>
    change Ordered (m.commitWithin codec room lease preimage).2
    unfold commitWithin
    split
    · exact h
    · rename_i hguard
      simp only [not_or, ne_eq, not_not, Bool.not_eq_true, Bool.not_eq_false'] at hguard
      exact h.persistAndClose hconsistent hguard.1 room lease .committed preimage
        fun _ => horderly.1
  | accept room lease preimage => exact h.acceptWithin hconsistent room lease preimage
  | acceptForDeferredCommit room lease preimage =>
    obtain ⟨pending, heq⟩ := @acceptForDeferredCommitWithin_eq codec m room lease preimage
    change Ordered (m.acceptForDeferredCommitWithin codec room lease preimage).2
    rw [heq]
    exact h.acceptWithin hconsistent room lease preimage
  | abort room lease =>
    change Ordered (m.abortWithin codec room lease).2
    unfold abortWithin
    split
    · rename_i hinvalid
      exact .of_poisoned (by simpa using hinvalid)
    · rename_i hvalid
      have hvalid : m.recoveryStateValid = true := by simpa using hvalid
      split
      · exact h
      · split
        · exact h
        · have hpersist := h.persist hconsistent hvalid room lease .aborted 0 (by simp)
            m.rewind rfl ⟨rfl, rfl, rfl, rfl, (hconsistent.live hvalid).unwritten.1⟩
          have hclosed : ∀ result : Bool × TransactionManager, Ordered result.2 →
              Ordered (closeIfPersisted result).2 := by
            rintro ⟨_ | _, _⟩ hresult <;> exact hresult
          exact hclosed _ hpersist
  | markApfsDurableThrough room lease appendLease flushed sequence =>
    exact h.markWithin hconsistent room lease appendLease flushed false sequence
  | markCleanedThrough room lease appendLease flushed sequence =>
    exact h.markWithin hconsistent room lease appendLease flushed true sequence
  | ensureDeferredAcceptanceDurability sequence flushed =>
    obtain ⟨durable, failed, hensured⟩ :=
      @ensureDeferredAcceptanceDurability_snd m sequence flushed
    change Ordered (m.ensureDeferredAcceptanceDurability sequence flushed).2
    rw [hensured]
    exact h
  | loadAcceptedTransactionsAfter lease included =>
    change Ordered (m.loadAcceptedTransactionsAfter codec lease included).2
    by_cases hidle : m.state = .idle
    · have hseed := Ordered.seed hconsistent.kept hidle hconsistent.continuation
      cases hresult : m.seedIdsFromJournalRecords codec m.journal with
      | mk ok m' =>
        rw [hresult] at hseed
        unfold loadAcceptedTransactionsAfter
        rw [hresult]
        cases ok <;> simp only [apply_ite Prod.snd] <;> split_ifs <;>
          first | exact h | exact hseed | exact .of_poisoned rfl
    · unfold loadAcceptedTransactionsAfter
      rw [if_neg hidle]
      split_ifs <;> first | exact h | exact .of_poisoned rfl
  | restart lease =>
    let constructed : TransactionManager :=
      { fresh m.safetyLevel m.journalPath m.volumeIdentity with journal := m.journal }
    have hidle : constructed.state = .idle := rfl
    have hpath : constructed.journalPath ≠ "" := hconsistent.path
    change Ordered (constructed.seedIdsFromExistingJournal codec lease).2
    rw [seedIdsFromExistingJournal_of_idle hidle hpath]
    split
    · exact .of_poisoned rfl
    · exact Ordered.seed (m := constructed) hconsistent.kept rfl rfl

end Boundaries

/-! ## Whole runs -/

section Runs

variable {m : TransactionManager} {evidence : Evidence} {floor : ℕ} {σ : LogState}
  {request : Request}

/-- An orderly request of an ordered manager is admissible. -/
theorem Orderly.admissible (h : m.Orderly codec request) (hordered : Ordered m) :
    m.Admissible codec request := by
  cases request with
  | commit room lease preimage => exact h.2
  | markApfsDurableThrough room lease appendLease flushed sequence =>
    exact ⟨h, fun hvalid hlt hmem => (hordered hvalid sequence hmem hlt).le⟩
  | _ => exact h

/-- Nothing that was accepted before an orderly commit is unmarked. -/
theorem Accounted.before_commit (h : Accounted σ evidence.marks)
    (hconsistent : ConsistentAt codec m evidence floor σ) (hvalid : m.recoveryStateValid = true)
    (happlied : m.hasUnappliedAcceptedWork = false) :
    ∀ boundary ∈ σ.history, boundary.committed = false →
      ∃ mark ∈ evidence.marks, boundary.sequence ≤ mark := by
  intro boundary hboundary hcommitted
  have hσ := hconsistent.kept.path.sound LogState.sound_initial
  have hmarks := (hconsistent.live hvalid).watermarks
  have hle : m.watermarks.acceptedSequence ≤ m.watermarks.apfsDurableSequence := by
    simpa [hasUnappliedAcceptedWork] using happlied
  refine h boundary hboundary hcommitted ?_
  by_cases hfloor : floor ≤ boundary.sequence
  · have := (hmarks.settled boundary hboundary hfloor).2 hcommitted
    have := hmarks.durable_written
    omega
  · have := hconsistent.kept.dropped boundary.sequence
      (LogState.mem_boundaries.mpr ⟨boundary, hboundary, rfl⟩) (Nat.lt_of_not_le hfloor)
    have := hσ.cleanup_le
    omega

/-- The marks of the evidence after a request. -/
theorem advance_marks (request : Request) :
    (∀ mark ∈ evidence.marks, mark ∈ (advance codec (m, evidence) request).2.marks) ∧
      ((m.serve codec request).1 = true → ∀ target, durableTarget request = some target →
        target ∈ (advance codec (m, evidence) request).2.marks) := by
  have heq : (advance codec (m, evidence) request).2.marks =
      (if (m.serve codec request).1 then m.observe evidence request else evidence).marks := rfl
  rw [heq]
  cases hok : (m.serve codec request).1 with
  | false => exact ⟨fun _ hmark => hmark, fun hfalse => by cases hfalse⟩
  | true =>
    rw [if_pos rfl]
    cases request with
    | markApfsDurableThrough room lease appendLease flushed sequence =>
      refine ⟨fun _ hmark => List.mem_append_left _ hmark, fun _ target htarget => ?_⟩
      obtain rfl : sequence = target := Option.some.inj htarget
      exact List.mem_append_right _ List.mem_cons_self
    | _ => exact ⟨fun _ hmark => hmark, fun _ target htarget => by cases htarget⟩

/-- The invariant of an orderly run. -/
def Accountable (codec : WalCodec) (m : TransactionManager) (evidence : Evidence) : Prop :=
  Ordered m ∧ ∃ floor σ, ConsistentAt codec m evidence floor σ ∧ Accounted σ evidence.marks

/-- **Every orderly request keeps the account.** -/
theorem accountable_advance (h : Accountable codec m evidence) (horderly : m.Orderly codec request) :
    Accountable codec (advance codec (m, evidence) request).1
      (advance codec (m, evidence) request).2 := by
  obtain ⟨hordered, floor, σ, hconsistent, haccounted⟩ := h
  have hσ := hconsistent.kept.path.sound LogState.sound_initial
  have hserved := served_serve hconsistent (horderly.admissible hordered)
  obtain ⟨base, appended, floor', σ', hgrowth, -, hnext⟩ := hserved.advance
  obtain ⟨hold, hnew⟩ := @advance_marks codec m evidence request
  refine ⟨hordered.serve hconsistent horderly, floor', σ', hnext, ?_⟩
  -- what is appended was written by this request
  have hwrites : ∀ record ∈ appended, Writes request (m.serve codec request).1 record := by
    intro record hrecord
    have hmem : record ∈ (m.serve codec request).2.journal := by
      rw [show (m.serve codec request).2.journal = base ++ appended from hgrowth.journal]
      exact List.mem_append_right _ hrecord
    have hpath := hgrowth.path.mem hrecord
    rcases serve_writes hconsistent record hmem with holder | hindex | hwritten
    · have hplain : record ∈ plainRecords m.journal :=
        mem_plainRecords.mpr ⟨holder, hpath.2.2.2⟩
      rw [hconsistent.kept.plain] at hplain
      have := (hconsistent.kept.path.mem (mem_recordsFrom.mp hplain).1).2.1
      omega
    · exact absurd hindex hpath.2.2.2
    · exact hwritten
  have hweaken : Accounted σ (advance codec (m, evidence) request).2.marks := by
    intro boundary hboundary hcommitted hdurable
    obtain ⟨mark, hmark, hle⟩ := haccounted boundary hboundary hcommitted hdurable
    exact ⟨mark, hold mark hmark, hle⟩
  refine hweaken.path hgrowth.path hσ ?_ ?_ ?_
  · rintro ⟨record, hrecord, hop, hstate⟩ boundary hboundary hcommitted
    have hcommit := ((hwrites record hrecord).marker hop).mp hstate
    obtain ⟨mark, hmark, hle⟩ : ∃ mark ∈ evidence.marks, boundary.sequence ≤ mark := by
      cases request with
      | commit room lease preimage =>
        refine haccounted.before_commit hconsistent ?_ horderly.1 boundary hboundary hcommitted
        -- a poisoned manager would not have written anything
        by_contra hinvalid
        have hrefused : m.commitWithin codec room lease preimage = (false, m) := by
          unfold commitWithin
          exact if_pos (.inl (by simpa using hinvalid))
        have hjournal : m.journal = base ++ appended := by
          have hsame := hgrowth.journal
          change (m.commitWithin codec room lease preimage).2.journal = _ at hsame
          rw [hrefused] at hsame
          exact hsame
        have hmem : record ∈ m.journal := by
          rw [hjournal]
          exact List.mem_append_right _ hrecord
        have hpath := hgrowth.path.mem hrecord
        have hplain : record ∈ plainRecords m.journal :=
          mem_plainRecords.mpr ⟨hmem, hpath.2.2.2⟩
        rw [hconsistent.kept.plain] at hplain
        have := (hconsistent.kept.path.mem (mem_recordsFrom.mp hplain).1).2.1
        omega
      | _ => cases hcommit
    exact ⟨mark, hold mark hmark, hle⟩
  · intro record hrecord hop hstate other hother hop' hstate'
    have hcommit := ((hwrites other hother).marker hop').mp hstate'
    have := ((hwrites record hrecord).marker hop).mpr hcommit
    rw [hstate] at this
    cases this
  · intro record hrecord hop hstate
    obtain ⟨hok, htarget⟩ := (hwrites record hrecord).watermark hop hstate
    exact hnew hok _ htarget

/-- **Every orderly run keeps the account.** -/
theorem accountable_run {s : TransactionManager × Evidence} {requests : List Request}
    (h : Accountable codec s.1 s.2) (hrun : OrderlyRun codec s requests) :
    Accountable codec (advanceAll codec s requests).1 (advanceAll codec s requests).2 := by
  induction requests generalizing s with
  | nil => exact h
  | cons request requests ih => exact ih (accountable_advance h hrun.1) hrun.2

theorem accountable_fresh (safetyLevel : String) {journalPath : String} (volumeIdentity : String)
    (hpath : journalPath ≠ "") :
    Accountable codec (fresh safetyLevel journalPath volumeIdentity) {} := by
  obtain ⟨floor, σ, h⟩ := @consistent_fresh codec safetyLevel _ volumeIdentity hpath
  refine ⟨fun _ boundary hboundary => absurd hboundary (Finset.notMem_empty _), floor, σ, h,
    fun boundary hboundary => ?_⟩
  rw [← h.settled] at hboundary
  exact absurd hboundary List.not_mem_nil

end Runs

/-! ## What is read back -/

section Reading

variable {m : TransactionManager} {evidence : Evidence} {floor : ℕ} {σ : LogState}

/-- The conditions under which the live manager answers. -/
structure Answers (codec : WalCodec) (m : TransactionManager) (lease : Lease) : Prop where
  valid : m.recoveryStateValid = true
  standing : m.state = .idle ∨ m.state = .active ∧ lease.held = true ∧ lease.reheld = true
  readable : lease.readable = true
  validates : validateWalSemantics codec m.journal = true

/-- A manager that answers meets the conditions. -/
theorem Answers.of_load {lease : Lease} {included : Bool}
    {transactions : List AcceptedTransaction} (hpath : m.journalPath ≠ "")
    (h : (m.loadAcceptedTransactionsAfter codec lease included).1 = .ok transactions) :
    Answers codec m lease := by
  unfold loadAcceptedTransactionsAfter at h
  rw [if_neg hpath] at h
  split at h
  · cases h
  · rename_i hvalid
    split at h
    · cases h
    · rename_i hstate
      split at h
      · cases h
      · rename_i hheld
        split at h
        · cases h
        · rename_i hreadable
          split at h
          · cases h
          · rename_i hvalidates
            refine ⟨by simpa using hvalid, ?_, by simpa using hreadable, by simpa using hvalidates⟩
            split at h
            · rename_i hidle
              exact .inl hidle
            · rename_i hidle
              split at h
              · cases h
              · rename_i hreheld
                have hactive : m.state = .active := by
                  by_contra hnot
                  exact hstate ⟨hidle, hnot⟩
                refine .inr ⟨hactive, ?_, by simpa using hreheld⟩
                by_contra hlost
                exact hheld ⟨hactive, by simpa using hlost⟩

/-- The last accepted transaction above the floor is the accepted watermark in memory. -/
theorem ConsistentAt.getLast?_collected (h : ConsistentAt codec m evidence floor σ)
    (hvalid : m.recoveryStateValid = true)
    (hwork : m.watermarks.apfsDurableSequence < m.watermarks.acceptedSequence) :
    (collected (σ.cut floor) false).getLast?.map AcceptedTransaction.acceptedSequence =
      some m.watermarks.acceptedSequence := by
  have hmarks := (h.live hvalid).watermarks
  have hcut : (σ.cut floor).Sound := (h.kept.path.sound LogState.sound_initial).cut
  obtain ⟨hfloor, boundary, hboundary, hcommitted, hsequence⟩ :=
    hmarks.latest.resolve_left (Nat.not_le.mpr hwork)
  have hmem : boundary.transaction ∈ collected (σ.cut floor) false := by
    refine mem_collected.mpr ⟨boundary, List.mem_filter.mpr ⟨hboundary, ?_⟩, .inr hcommitted, rfl⟩
    exact decide_eq_true (by rw [hsequence]; exact hfloor)
  have hincreasing : ((collected (σ.cut floor) false).map
      AcceptedTransaction.acceptedSequence).Pairwise (· < ·) := by
    have hboundaries := hcut.increasing
    unfold collected
    rw [List.map_map]
    exact hboundaries.sublist (List.filter_sublist.map _)
  have hle : ∀ transaction ∈ collected (σ.cut floor) false,
      transaction.acceptedSequence ≤ m.watermarks.acceptedSequence := by
    intro transaction htransaction
    obtain ⟨other, hother, hstate, rfl⟩ := mem_collected.mp htransaction
    obtain ⟨hold, hkept⟩ := List.mem_filter.mp hother
    exact (hmarks.settled other hold (of_decide_eq_true hkept)).2 (by simpa using hstate)
  rcases List.eq_nil_or_concat (collected (σ.cut floor) false) with hnil | ⟨front, last, hlast⟩
  · rw [hnil] at hmem
    cases hmem
  · rw [List.concat_eq_append] at hlast
    rw [hlast] at hmem hle hincreasing ⊢
    have hlastLe := hle last (by simp)
    have hge : m.watermarks.acceptedSequence ≤ last.acceptedSequence := by
      rw [← hsequence]
      change boundary.transaction.acceptedSequence ≤ _
      rcases List.mem_append.mp hmem with hfront | hend
      · rw [List.map_append, List.pairwise_append] at hincreasing
        exact (hincreasing.2.2 _ (List.mem_map_of_mem hfront) last.acceptedSequence
          (by simp)).le
      · rw [List.mem_singleton.mp hend]
    simp only [List.getLast?_append, List.getLast?_singleton, Option.some_or, Option.map_some,
      Option.some.injEq]
    omega

/-- What an active manager reads: its own watermark decides. -/
theorem ConsistentAt.load_active (h : ConsistentAt codec m evidence floor σ) {lease : Lease}
    (hanswers : Answers codec m lease) (hactive : m.state = .active)
    (hheld : lease.held = true) (hreheld : lease.reheld = true) :
    (m.loadAcceptedTransactionsAfter codec lease false).1 =
      .ok ((collected (σ.cut floor) false).filter fun transaction =>
        m.watermarks.apfsDurableSequence < transaction.acceptedSequence) := by
  have hmarks := (h.live hanswers.valid).watermarks
  have hcollect := @Kept.collectAcceptedTransactions codec m.journal evidence.log floor σ m h.kept
    false m.watermarks.apfsDurableSequence rfl
    (by
      have hcleanup := hmarks.cleanup_le
      rcases hmarks.cleanup_known with hknown | hhidden
      · exact ((dropBelow_le _ _).trans hknown).trans hcleanup
      · rw [dropBelow_of_lt hhidden]
        exact Nat.zero_le _)
    (by
      intro transaction htransaction
      obtain ⟨other, hother, hstate, rfl⟩ := mem_collected.mp htransaction
      obtain ⟨hold, hkept⟩ := List.mem_filter.mp hother
      exact (hmarks.settled other hold (of_decide_eq_true hkept)).2 (by simpa using hstate))
    (h.getLast?_collected hanswers.valid)
  have hidle : m.state ≠ .idle := by simp [hactive]
  unfold loadAcceptedTransactionsAfter
  rw [if_neg (by simp [hanswers.valid]), if_neg h.path, if_neg (fun hstate => hstate.2 hactive),
    if_neg (fun hlost => by simp [hheld] at hlost), if_neg (by simp [hanswers.readable]),
    if_neg (by simp [hanswers.validates]), if_neg hidle, if_neg (by simp [hreheld])]
  exact hcollect

end Reading

/-- An unmarked transaction lies above the durable watermark of the log, hence above
the floor. -/
theorem ConsistentAt.unmarked {m : TransactionManager} {evidence : Evidence} {floor : ℕ}
    {σ : LogState} (h : ConsistentAt codec m evidence floor σ)
    (haccounted : Accounted σ evidence.marks) {boundary : Boundary}
    (hboundary : evidence.Unmarked boundary) :
    boundary ∈ σ.history ∧ σ.watermarks.apfsDurableSequence < boundary.sequence ∧
      floor ≤ boundary.sequence := by
  obtain ⟨hsettled, hcommitted, hunmarked⟩ := hboundary
  have hσ := h.kept.path.sound LogState.sound_initial
  rw [h.settled] at hsettled
  have hdurable : σ.watermarks.apfsDurableSequence < boundary.sequence := by
    by_contra hle
    obtain ⟨mark, hmark, hcovers⟩ :=
      haccounted boundary hsettled hcommitted (Nat.le_of_not_lt hle)
    have := hunmarked mark hmark
    omega
  refine ⟨hsettled, hdurable, ?_⟩
  by_contra hfloor
  have := h.kept.dropped boundary.sequence
    (LogState.mem_boundaries.mpr ⟨boundary, hsettled, rfl⟩) (Nat.lt_of_not_le hfloor)
  have := hσ.cleanup_le
  omega

/-- **Accepted work survives** beside direct commits in every run whose direct commits
find nothing accepted that is still unapplied, and whose compactions keep what they
have to keep.  In every state such a run reaches, whatever the live manager answers
contains every accepted transaction that was not marked durable, and it answers as
long as it is not poisoned, holds the lease and the log has no open transaction; and a
restart then answers with all of them too. -/
theorem accepted_work_survives (codec : WalCodec)
    (safetyLevel journalPath volumeIdentity : String) (hpath : journalPath ≠ "")
    (requests : List Request)
    (hrun : OrderlyRun codec (fresh safetyLevel journalPath volumeIdentity, {}) requests) :
    let live := (advanceAll codec (fresh safetyLevel journalPath volumeIdentity, {}) requests).1
    let evidence :=
      (advanceAll codec (fresh safetyLevel journalPath volumeIdentity, {}) requests).2
    (∀ lease transactions,
      (live.loadUnappliedAcceptedTransactions codec lease).1 = .ok transactions →
      ∀ boundary, evidence.Unmarked boundary → boundary.transaction ∈ transactions) ∧
    (∀ lease, Answers codec live lease →
      ∃ transactions, (live.loadUnappliedAcceptedTransactions codec lease).1 = .ok transactions) ∧
    (validateWalSemantics codec live.journal = true →
      ∀ lease lease' : Lease, lease.readable = true → lease'.readable = true →
        (live.restart codec lease).1 = true ∧
        ∃ transactions,
          ((live.restart codec lease).2.loadUnappliedAcceptedTransactions codec lease').1 =
            .ok transactions ∧
          ∀ boundary, evidence.Unmarked boundary → boundary.transaction ∈ transactions) := by
  intro live evidence
  obtain ⟨-, floor, σ, h, haccounted⟩ : Accountable codec live evidence :=
    accountable_run (accountable_fresh safetyLevel volumeIdentity hpath) hrun
  have hclosed : validateWalSemantics codec live.journal = true → σ.flushed = [] := by
    rw [h.kept.validateWalSemantics]
    exact of_decide_eq_true
  have hunfinished : ∀ boundary, evidence.Unmarked boundary →
      boundary.transaction ∈ unfinished σ false := by
    intro boundary hboundary
    obtain ⟨hmem, hdurable, -⟩ := h.unmarked haccounted hboundary
    exact List.mem_filter.mpr ⟨mem_collected.mpr ⟨boundary, hmem, .inr hboundary.2.1, rfl⟩,
      decide_eq_true hdurable⟩
  -- the live manager, idle or with an open transaction that has put nothing into the log
  have hload : ∀ lease, Answers codec live lease → ∃ transactions,
      (live.loadUnappliedAcceptedTransactions codec lease).1 = .ok transactions ∧
      ∀ boundary, evidence.Unmarked boundary → boundary.transaction ∈ transactions := by
    intro lease hanswers
    rcases hanswers.standing with hidle | ⟨hactive, hheld, hreheld⟩
    · exact ⟨_, h.kept.load (hclosed hanswers.validates) hidle h.path h.continuation
        hanswers.valid (h.live hanswers.valid).unambiguous hanswers.readable false, hunfinished⟩
    · refine ⟨_, h.load_active hanswers hactive hheld hreheld, fun boundary hboundary => ?_⟩
      obtain ⟨hmem, hdurable, hfloor⟩ := h.unmarked haccounted hboundary
      have hwritten := (h.live hanswers.valid).watermarks.durable_written
      have hcut : boundary ∈ (σ.cut floor).history :=
        List.mem_filter.mpr ⟨hmem, decide_eq_true hfloor⟩
      exact List.mem_filter.mpr ⟨mem_collected.mpr ⟨boundary, hcut, .inr hboundary.2.1, rfl⟩,
        decide_eq_true (lt_of_le_of_lt hwritten hdurable)⟩
  refine ⟨fun lease transactions hloaded => ?_, fun lease hanswers => ?_,
    fun hvalidates lease lease' hreadable hreadable' => ⟨?_, _, ?_, hunfinished⟩⟩
  · obtain ⟨found, hfound, hall⟩ := hload lease (.of_load h.path hloaded)
    rw [hloaded] at hfound
    obtain rfl : transactions = found := Except.ok.inj hfound
    exact hall
  · obtain ⟨found, hfound, -⟩ := hload lease hanswers
    exact ⟨found, hfound⟩
  · rw [h.kept.restart (hclosed hvalidates) h.path hreadable]
  · exact h.kept.restart_load (hclosed hvalidates) h.path hreadable hreadable' false

instance (m : TransactionManager) (codec : WalCodec) :
    ∀ request : Request, Decidable (m.Orderly codec request)
  | .commit _ _ _ => inferInstanceAs (Decidable (_ ∧ _))
  | .markApfsDurableThrough _ _ _ _ _ => inferInstanceAs (Decidable (RoomAdmitted ..))
  | .begin _ => .isTrue trivial
  | .recordMutation _ _ => .isTrue trivial
  | .flushPreparedRecords _ _ => inferInstanceAs (Decidable (RoomAdmitted ..))
  | .accept _ _ _ => inferInstanceAs (Decidable (RoomAdmitted ..))
  | .acceptForDeferredCommit _ _ _ => inferInstanceAs (Decidable (RoomAdmitted ..))
  | .abort _ _ => inferInstanceAs (Decidable (RoomAdmitted ..))
  | .markCleanedThrough _ _ _ _ _ => inferInstanceAs (Decidable (RoomAdmitted ..))
  | .ensureDeferredAcceptanceDurability _ _ => .isTrue trivial
  | .loadAcceptedTransactionsAfter _ _ => .isTrue trivial
  | .restart _ => .isTrue trivial

instance decidableOrderlyRun (codec : WalCodec) (s : TransactionManager × Evidence) :
    ∀ requests : List Request, Decidable (OrderlyRun codec s requests)
  | [] => .isTrue trivial
  | request :: requests =>
    have := decidableOrderlyRun codec (TransactionManager.advance codec s request) requests
    inferInstanceAs (Decidable (_ ∧ _))

/-- A direct commit, an acceptance, its mark, another direct commit, and an acceptance
that finds the log full. -/
def mixedRequests : List Request :=
  [.begin {}, .recordMutation {} (createFile "\\a"), .commit .fits {} 7,
    .begin {}, .recordMutation {} (createFile "\\b"), .accept .fits {} 8,
    .markApfsDurableThrough .fits {} {} true 4,
    .begin {}, .recordMutation {} (createFile "\\c"), .commit .fits {} 8,
    .begin {}, .recordMutation {} (createFile "\\d"), .acceptForDeferredCommit .compacted {} 9]

theorem accepted_work_survives_sample :
    OrderlyRun plainCodec (fresh "strict" "wal" "volume", {}) mixedRequests ∧
      ∃ transactions, (((advanceAll plainCodec (fresh "strict" "wal" "volume", {})
        mixedRequests).1.restart plainCodec {}).2.loadUnappliedAcceptedTransactions
          plainCodec {}).1 = .ok transactions := by
  have hrun : OrderlyRun plainCodec (fresh "strict" "wal" "volume", {}) mixedRequests := by
    decide +kernel
  obtain ⟨-, transactions, hloaded, -⟩ :=
    (accepted_work_survives plainCodec "strict" "wal" "volume" (by decide) mixedRequests
      hrun).2.2 (by decide +kernel) {} {} rfl rfl
  exact ⟨hrun, transactions, hloaded⟩

/-- An acceptance, and a direct commit while it is unapplied. -/
def overtakenRequests : List Request :=
  [.begin {}, .recordMutation {} (createFile "\\a"), .accept .fits {} 7,
    .begin {}, .commit .fits {} 7]

/-- The marker of the direct commit is taken for a durable watermark: neither the live
manager, which reseeds itself, nor a restart returns the accepted transaction, and
nothing was ever marked durable. -/
theorem direct_commit_overtakes_accepted_work :
    let live := (advanceAll plainCodec (fresh "strict" "wal" "volume", {}) overtakenRequests).1
    let evidence :=
      (advanceAll plainCodec (fresh "strict" "wal" "volume", {}) overtakenRequests).2
    (∃ boundary ∈ evidence.settled, boundary.committed = false) ∧ evidence.marks = [] ∧
      live.hasUnappliedAcceptedWork = true ∧
      (live.loadUnappliedAcceptedTransactions plainCodec {}).1.toOption = some [] ∧
      ((live.restart plainCodec {}).2.loadUnappliedAcceptedTransactions
        plainCodec {}).1.toOption = some [] := by
  decide +kernel

end TransactionManager
end Journal
end ApfsAccess
