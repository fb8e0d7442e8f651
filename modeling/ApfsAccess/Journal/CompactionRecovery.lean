import ApfsAccess.Journal.CompactionInvariant

/-!
# Compaction is invisible to recovery

Beside the journal that the compactions leave, a run has the log that they would have
left alone.  This module compares what recovery reads from the two.

`Kept.load` says what `LoadAcceptedTransactionsAfter` returns to an idle manager; the
answer does not mention the floor, so the two readings agree.  Two slips of the source
set limits to this: a compaction may keep a watermark record and drop the boundary it
names, and a compaction that is not followed by its append may drop the newest id.
-/

namespace ApfsAccess
namespace Journal

open TransactionManager

variable {codec : WalCodec}

section Reading

variable {m : TransactionManager} {log : List Record} {floor : ℕ} {σ : LogState}

/-- A log that was never compacted. -/
theorem Path.kept (h : Path codec {} log σ) : Kept codec log log 0 σ := by
  have hfrom : recordsFrom 0 log = log := List.filter_eq_self.mpr fun _ _ => by simp
  have hbelow : recordsBelow 0 log = [] := List.filter_eq_nil_iff.mpr fun _ _ => by simp
  refine ⟨h, ?_, ?_, .inl rfl, by decide, ?_, fun _ _ _ => Nat.zero_le _, ?_⟩
  · rw [hfrom]
    exact List.filter_eq_self.mpr fun record hrecord => by simpa using (h.mem hrecord).2.2.2
  · intro record hrecord hop
    exact absurd hop (h.mem hrecord).2.2.2
  · rw [hbelow, hfrom]
    exact ⟨{}, .nil _, .closed rfl h⟩
  · intro sequence _ hlt
    exact absurd hlt (Nat.not_lt_zero _)

/-- A journal without an open transaction passes the semantic check. -/
theorem Kept.validates {journal : List Record} (h : Kept codec journal log floor σ)
    (hclosed : σ.flushed = []) : Journal.validateWalSemantics codec journal = true := by
  rw [h.validateWalSemantics, hclosed]
  rfl

/-- The transactions above a watermark of the log. -/
def unfinished (σ : LogState) (included : Bool) : List AcceptedTransaction :=
  (collected σ included).filter fun transaction =>
    (if included then σ.watermarks.cleanupSequence
      else σ.watermarks.apfsDurableSequence) < transaction.acceptedSequence

/-- What a manager seeded from the journal collects, in terms of the whole log. -/
theorem Kept.collect_unfinished (h : Kept codec m.journal log floor σ)
    (hwatermarks : m.watermarks = (σ.cut floor).watermarks) (included : Bool) :
    m.collectAcceptedTransactions m.journal included = .ok (unfinished σ included) := by
  have hσ := h.path.sound LogState.sound_initial
  have hcleanup := hσ.cleanup_le
  rw [h.collect_restored hwatermarks included]
  refine congrArg Except.ok ?_
  cases included with
  | true => exact collected_cut true h.dropped
  | false =>
    exact collected_cut false fun sequence hsequence hlt =>
      (h.dropped sequence hsequence hlt).trans hcleanup

/-- **What the log gives back to an idle manager.** -/
theorem Kept.load (h : Kept codec m.journal log floor σ) (hclosed : σ.flushed = [])
    (hidle : m.state = .idle) (hpath : m.journalPath ≠ "")
    (hcontinuation : m.continuationSeed = none) (hvalid : m.recoveryStateValid = true)
    (hunambiguous : m.journalAppendAmbiguous = false) {lease : Lease}
    (hreadable : lease.readable = true) (included : Bool) :
    (m.loadAcceptedTransactionsAfter codec lease included).1 = .ok (unfinished σ included) := by
  have hvalidate := h.validates hclosed
  have hseed := h.seedIdsFromJournalRecords hclosed hidle hcontinuation
  rw [hunambiguous] at hseed
  have hcollect := @Kept.collect_unfinished codec
    (m.restored (σ.cut floor) (m.journal.foldl (seedStep codec) {})) log floor σ h rfl included
  have hactive : m.state ≠ .active := by simp [hidle]
  unfold loadAcceptedTransactionsAfter
  rw [if_neg (by simp [hvalid]), if_neg hpath, if_neg (fun hstate => hstate.1 hidle),
    if_neg (fun hstate => hactive hstate.1), if_neg (by simp [hreadable]),
    if_neg (by simp [hvalidate]), if_pos hidle, hseed]
  exact hcollect

/-- **A restart over a journal without an open transaction** comes up valid. -/
theorem Kept.restart (h : Kept codec m.journal log floor σ) (hclosed : σ.flushed = [])
    (hpath : m.journalPath ≠ "") {lease : Lease} (hreadable : lease.readable = true) :
    m.restart codec lease = (true,
      ({ fresh m.safetyLevel m.journalPath m.volumeIdentity with
        journal := m.journal } : TransactionManager).restored (σ.cut floor)
          (m.journal.foldl (seedStep codec) {})) := by
  have hvalidate := h.validates hclosed
  let constructed : TransactionManager :=
    { fresh m.safetyLevel m.journalPath m.volumeIdentity with journal := m.journal }
  have hidle : constructed.state = .idle := rfl
  have hread : ¬ ((!lease.readable) = true ∨
      (!Journal.validateWalSemantics codec constructed.journal) = true) := by
    change ¬ ((!lease.readable) = true ∨ (!Journal.validateWalSemantics codec m.journal) = true)
    simp [hreadable, hvalidate]
  change constructed.seedIdsFromExistingJournal codec lease = _
  rw [seedIdsFromExistingJournal_of_idle hidle hpath, if_neg hread]
  exact h.seedIdsFromJournalRecords hclosed hidle rfl

/-- A restart over any journal of a log, and then a reading. -/
theorem Kept.restart_load (h : Kept codec m.journal log floor σ) (hclosed : σ.flushed = [])
    (hpath : m.journalPath ≠ "") {lease lease' : Lease} (hreadable : lease.readable = true)
    (hreadable' : lease'.readable = true) (included : Bool) :
    ((m.restart codec lease).2.loadAcceptedTransactionsAfter codec lease' included).1 =
      .ok (unfinished σ included) := by
  rw [h.restart hclosed hpath hreadable]
  let recovered := ({ fresh m.safetyLevel m.journalPath m.volumeIdentity with
    journal := m.journal } : TransactionManager).restored (σ.cut floor)
      (m.journal.foldl (seedStep codec) {})
  exact @Kept.load codec recovered log floor σ h hclosed rfl hpath rfl rfl rfl lease' hreadable'
    included

end Reading

namespace TransactionManager

instance (journal : List Record) (floor : ℕ) : Decidable (KeepsTargets journal floor) :=
  inferInstanceAs (Decidable (∀ record ∈ journal, record.operation = .durabilityWatermark →
    floor ≤ record.sequence → floor ≤ record.logicalOffset))

instance (journal : List Record) (floor : ℕ) : Decidable (KeepsRecords journal floor) :=
  inferInstanceAs (Decidable (plainRecords journal ≠ [] →
    recordsFrom floor (plainRecords journal) ≠ []))

instance (journal : List Record) (room : Room) (floor : ℕ) :
    Decidable (RoomAdmitted journal room floor) :=
  inferInstanceAs (Decidable (_ ∧ _))

instance (m : TransactionManager) : ∀ request : Request, Decidable (m.Admissible codec request)
  | .flushPreparedRecords _ _ => inferInstanceAs (Decidable (RoomAdmitted ..))
  | .commit _ _ _ => inferInstanceAs (Decidable (RoomAdmitted ..))
  | .accept _ _ _ => inferInstanceAs (Decidable (RoomAdmitted ..))
  | .acceptForDeferredCommit _ _ _ => inferInstanceAs (Decidable (RoomAdmitted ..))
  | .abort _ _ => inferInstanceAs (Decidable (RoomAdmitted ..))
  | .markApfsDurableThrough _ _ _ _ _ => inferInstanceAs (Decidable (_ ∧ _))
  | .markCleanedThrough _ _ _ _ _ => inferInstanceAs (Decidable (RoomAdmitted ..))
  | .begin _ => .isTrue trivial
  | .recordMutation _ _ => .isTrue trivial
  | .ensureDeferredAcceptanceDurability _ _ => .isTrue trivial
  | .loadAcceptedTransactionsAfter _ _ => .isTrue trivial
  | .restart _ => .isTrue trivial

instance decidableAdmissibleRun (s : TransactionManager × Evidence) :
    ∀ requests : List Request, Decidable (AdmissibleRun codec s requests)
  | [] => .isTrue trivial
  | request :: requests =>
    have := decidableAdmissibleRun (TransactionManager.advance codec s request) requests
    inferInstanceAs (Decidable (_ ∧ _))

/-- The required checkpoints are read off the transactions since the last cleanup. -/
theorem loadRequiredCheckpointXidsSinceCleanup_eq {m : TransactionManager} {lease : Lease}
    {transactions : List AcceptedTransaction}
    (snapshotPins : List UInt8 → Option (List ℕ))
    (h : (m.loadAcceptedTransactionsAfter codec lease true).1 = .ok transactions) :
    (m.loadRequiredCheckpointXidsSinceCleanup codec snapshotPins lease).1 =
      requiredCheckpointXids snapshotPins transactions := by
  unfold loadRequiredCheckpointXidsSinceCleanup
  cases hload : m.loadAcceptedTransactionsAfter codec lease true with
  | mk result m' =>
    rw [hload] at h
    obtain rfl : result = .ok transactions := h
    rfl

/-- **Compaction is invisible to recovery** in every run whose compactions keep the
boundary of every watermark record they keep and, where nothing is appended behind
them, the newest id, and whose durable marks are not below a direct commit.  In every
state such a run reaches, the journal passes the semantic check exactly when the log
without any compaction does; and then a restart comes up valid over either, reads the
same unapplied accepted transactions and the same transactions since the last cleanup,
each with the records that were prepared for it, hence requires the same checkpoints,
and has its next ids above everything that was ever written. -/
theorem compaction_invisible_to_recovery (codec : WalCodec)
    (safetyLevel journalPath volumeIdentity : String) (hpath : journalPath ≠ "")
    (requests : List Request)
    (hrun : AdmissibleRun codec (fresh safetyLevel journalPath volumeIdentity, {}) requests) :
    let live := (advanceAll codec (fresh safetyLevel journalPath volumeIdentity, {}) requests).1
    let evidence :=
      (advanceAll codec (fresh safetyLevel journalPath volumeIdentity, {}) requests).2
    let whole := { live with journal := evidence.log }
    validateWalSemantics codec live.journal = validateWalSemantics codec evidence.log ∧
    (validateWalSemantics codec evidence.log = true →
      ∀ lease lease' : Lease, lease.readable = true → lease'.readable = true →
        let recovered := live.restart codec lease
        let reference := whole.restart codec lease
        recovered.1 = true ∧ reference.1 = true ∧
        (∃ transactions,
          (recovered.2.loadUnappliedAcceptedTransactions codec lease').1 = .ok transactions ∧
          (reference.2.loadUnappliedAcceptedTransactions codec lease').1 = .ok transactions ∧
          ∀ transaction ∈ transactions, ∃ boundary ∈ evidence.settled,
            boundary.committed = false ∧ boundary.transaction = transaction) ∧
        (∃ transactions,
          (recovered.2.loadAcceptedTransactionsAfter codec lease' true).1 = .ok transactions ∧
          (reference.2.loadAcceptedTransactionsAfter codec lease' true).1 = .ok transactions ∧
          ∀ transaction ∈ transactions, ∃ boundary ∈ evidence.settled,
            boundary.transaction = transaction) ∧
        (∀ snapshotPins : List UInt8 → Option (List ℕ),
          (recovered.2.loadRequiredCheckpointXidsSinceCleanup codec snapshotPins lease').1 =
            (reference.2.loadRequiredCheckpointXidsSinceCleanup codec snapshotPins lease').1) ∧
        ∀ record ∈ evidence.log, record.transactionId < recovered.2.nextTransactionId ∧
          record.sequence < recovered.2.nextSequence) := by
  intro live evidence whole
  obtain ⟨floor, σ, h⟩ : Consistent codec live evidence :=
    consistent_run (consistent_fresh safetyLevel volumeIdentity hpath) hrun
  have hwhole : Kept codec whole.journal evidence.log 0 σ := h.kept.path.kept
  refine ⟨by rw [h.kept.validateWalSemantics, hwhole.validateWalSemantics],
    fun hvalidate lease lease' hreadable hreadable' => ?_⟩
  have hclosed : σ.flushed = [] := by
    rw [show evidence.log = whole.journal from rfl, hwhole.validateWalSemantics] at hvalidate
    exact of_decide_eq_true hvalidate
  have hrecovered := h.kept.restart hclosed h.path hreadable
  have hreference := hwhole.restart hclosed h.path hreadable
  have hload := fun included => h.kept.restart_load hclosed h.path hreadable hreadable' included
  have hload' := fun included =>
    hwhole.restart_load hclosed h.path hreadable hreadable' included
  refine ⟨congrArg Prod.fst hrecovered, congrArg Prod.fst hreference,
    ⟨_, hload false, hload' false, ?_⟩, ⟨_, hload true, hload' true, ?_⟩, ?_, ?_⟩
  · intro transaction htransaction
    obtain ⟨boundary, hmem, hcommitted, hboundary⟩ :=
      mem_collected.mp (List.mem_filter.mp htransaction).1
    exact ⟨boundary, h.settled ▸ hmem, by simpa using hcommitted, hboundary⟩
  · intro transaction htransaction
    obtain ⟨boundary, hmem, -, hboundary⟩ :=
      mem_collected.mp (List.mem_filter.mp htransaction).1
    exact ⟨boundary, h.settled ▸ hmem, hboundary⟩
  · intro snapshotPins
    rw [loadRequiredCheckpointXidsSinceCleanup_eq snapshotPins (hload true),
      loadRequiredCheckpointXidsSinceCleanup_eq snapshotPins (hload' true)]
  · intro record hrecord
    have hnext := h.kept.nextTransactionId hclosed Nat.one_pos
      (h.kept.path.sound LogState.sound_initial).pos (.inr (h.ids hclosed))
    have htaken := (h.kept.path.takes Nat.one_pos record hrecord).1
    have hsequence := (h.kept.path.mem hrecord).2.1
    have hmax := h.kept.le_maxSequence.2
    rw [hrecovered]
    change record.transactionId < max 1 _ ∧ record.sequence < max 1 _
    rw [hnext]
    refine ⟨?_, by omega⟩
    rcases htaken with hlt | ⟨-, hopen⟩
    · exact hlt
    · exact absurd hclosed hopen

/-- A mutation that creates a file. -/
def createFile (path : String) : MutationIntent :=
  { kind := .createFile, path }

/-- Two accepted transactions of which the first is made durable and cleaned up; a
third one whose acceptance finds the log full and compacts it down to the marker of
the first; a direct commit, and a compaction that is not followed by its append. -/
def compactedRequests : List Request :=
  [.begin {}, .recordMutation {} (createFile "\\a"), .accept .fits {} 7,
    .begin {}, .recordMutation {} (createFile "\\b"), .acceptForDeferredCommit .fits {} 7,
    .markApfsDurableThrough .fits {} {} true 2, .markCleanedThrough .fits {} {} true 2,
    .begin {}, .recordMutation {} (createFile "\\c"), .flushPreparedRecords .fits {},
    .accept .compacted {} 8, .begin {}, .commit .fits {} 9,
    .begin {}, .recordMutation {} (createFile "\\d"), .accept (.stopped false) {} 9,
    .restart {}]

theorem compaction_invisible_to_recovery_sample :
    AdmissibleRun plainCodec (fresh "strict" "wal" "volume", {}) compactedRequests ∧
      (advanceAll plainCodec (fresh "strict" "wal" "volume", {})
        compactedRequests).1.journal.length = 10 ∧
      (advanceAll plainCodec (fresh "strict" "wal" "volume", {})
        compactedRequests).2.log.length = 9 ∧
      validateWalSemantics plainCodec (advanceAll plainCodec (fresh "strict" "wal" "volume", {})
        compactedRequests).1.journal =
      validateWalSemantics plainCodec (advanceAll plainCodec (fresh "strict" "wal" "volume", {})
        compactedRequests).2.log := by
  have hrun : AdmissibleRun plainCodec (fresh "strict" "wal" "volume", {}) compactedRequests := by
    decide +kernel
  exact ⟨hrun, by decide +kernel, by decide +kernel,
    (compaction_invisible_to_recovery plainCodec "strict" "wal" "volume" (by decide)
      compactedRequests hrun).1⟩

/-- Two accepted transactions are made durable one after the other and cleaned up
together, and a third one is accepted; the acceptance of a fourth compacts the log
down to the marker of the second. -/
def orphanedWatermarkRequests : List Request :=
  [.begin {}, .recordMutation {} (createFile "\\a"), .accept .fits {} 7,
    .begin {}, .recordMutation {} (createFile "\\b"), .accept .fits {} 7,
    .markApfsDurableThrough .fits {} {} true 2, .markApfsDurableThrough .fits {} {} true 4,
    .markCleanedThrough .fits {} {} true 4,
    .begin {}, .recordMutation {} (createFile "\\c"), .accept .fits {} 8,
    .begin {}, .recordMutation {} (createFile "\\d"), .accept .compacted {} 8]

/-- The compaction keeps the watermark record that names the first transaction and
drops the marker it names: the semantic check still passes, and the reseed is
refused, while the log as it was written is recovered. -/
theorem compaction_orphans_watermark :
    let live := (advanceAll plainCodec (fresh "strict" "wal" "volume", {})
      orphanedWatermarkRequests).1
    let evidence := (advanceAll plainCodec (fresh "strict" "wal" "volume", {})
      orphanedWatermarkRequests).2
    validateWalSemantics plainCodec live.journal = true ∧
      (live.restart plainCodec {}).1 = false ∧
      (({ live with journal := evidence.log } : TransactionManager).restart plainCodec {}).1 =
        true := by
  decide +kernel

end TransactionManager

end Journal
end ApfsAccess
