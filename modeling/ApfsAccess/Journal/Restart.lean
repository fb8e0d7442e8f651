import ApfsAccess.Journal.Replay

/-!
# A restart refines the live manager

The operations of the transaction manager change its memory and append to the
journal; a restart throws the memory away and rebuilds it from the journal.  This
module runs the two against each other.

The *ledger* says what the manager is for, in its own terms: the list of accepted
transactions, each with the records that were prepared for it, and the records
prepared so far for the open one.  It is advanced by what the operations report,
not by looking at the journal.

* `Coherent` : the invariant that ties memory, journal and ledger together.
* `coherent_run` : every run keeps it.
* `restart_refines_live_manager` : at every point of a run where no transaction is
  open, a fresh manager seeded from the journal agrees with the live one.
-/

namespace ApfsAccess
namespace Journal

/-- A call of one of the eight operations, with what it observes of the lease and
of the flush it may issue. -/
inductive Call where
  | begin (lease : Lease)
  | recordMutation (lease : Lease) (mutation : MutationIntent)
  | flushPreparedRecords (lease : Lease)
  | accept (lease : Lease) (preimageCheckpointXid : ℕ)
  | acceptForDeferredCommit (lease : Lease) (preimageCheckpointXid : ℕ)
  | abort (lease : Lease)
  | markApfsDurableThrough (lease appendLease : Lease) (flushed : Bool) (acceptedSequence : ℕ)
  | markCleanedThrough (lease appendLease : Lease) (flushed : Bool) (durableSequence : ℕ)

/-- The accepted transactions and the records of the open one. -/
structure Ledger where
  accepted : List AcceptedTransaction := []
  staged : List Record := []

namespace TransactionManager

variable (codec : WalCodec)

/-- Perform one call. -/
def perform (m : TransactionManager) : Call → Bool × TransactionManager
  | .begin lease => m.begin codec lease
  | .recordMutation lease mutation => m.recordMutation codec lease mutation
  | .flushPreparedRecords lease => m.flushPreparedRecords lease
  | .accept lease preimage => m.accept codec lease preimage
  | .acceptForDeferredCommit lease preimage => m.acceptForDeferredCommit codec lease preimage
  | .abort lease => m.abort codec lease
  | .markApfsDurableThrough lease appendLease flushed sequence =>
    m.markApfsDurableThrough codec lease appendLease flushed sequence
  | .markCleanedThrough lease appendLease flushed sequence =>
    m.markCleanedThrough codec lease appendLease flushed sequence

/-- What a successful call means for the ledger. -/
def record (m : TransactionManager) (ledger : Ledger) : Call → Ledger
  | .begin _ => { ledger with staged := [] }
  | .recordMutation _ mutation =>
    { ledger with staged := ledger.staged ++ [m.preparedRecord (m.assignSequence mutation)] }
  | .accept _ preimage =>
    { accepted := ledger.accepted ++
        [⟨m.currentTransactionId, m.nextSequence, ledger.staged, preimage⟩] }
  | .acceptForDeferredCommit _ preimage =>
    { accepted := ledger.accepted ++
        [⟨m.currentTransactionId, m.nextSequence, ledger.staged, preimage⟩] }
  | .abort _ => { ledger with staged := [] }
  | _ => ledger

/-- One call on the manager together with its ledger. -/
def step (s : TransactionManager × Ledger) (call : Call) : TransactionManager × Ledger :=
  ((s.1.perform codec call).2,
    if (s.1.perform codec call).1 then s.1.record s.2 call else s.2)

/-- A run of calls on the manager together with its ledger. -/
def run (s : TransactionManager × Ledger) (calls : List Call) : TransactionManager × Ledger :=
  calls.foldl (step codec) s

/-- A manager that has just been constructed and given a journal path and a volume
identity. -/
def fresh (safetyLevel journalPath volumeIdentity : String) : TransactionManager :=
  { safetyLevel, journalPath, volumeIdentity }

/-! ## The invariant -/

/-- The accepted boundaries above the cleanup watermark. -/
def boundariesAbove (history : List AcceptedTransaction) (cleanupSequence : ℕ) : Finset ℕ :=
  (history.map AcceptedTransaction.acceptedSequence).toFinset.filter fun boundary =>
    cleanupSequence < boundary

/-- The open transaction: the records `flushed` are in the journal, the rest of
`staged` is buffered. -/
structure OpenAt (m : TransactionManager) (bound : ℕ) (flushed staged : List Record) :
    Prop where
  current : m.currentTransactionId = bound
  next : m.nextTransactionId = bound + 1
  lt : bound < exhausted
  split : staged = flushed ++ m.bufferedPreparedRecords
  operations : m.pendingMutations.map (fun mutation => toWalOperation mutation.kind) =
    staged.map Record.operation
  prepared : ∀ record ∈ staged, PreparedFor record bound ∧ codec.mutationIsConsistent record = true
  plain : ∀ record ∈ flushed, carriesIntent record.operation = false
  identified : ∀ record ∈ m.bufferedPreparedRecords, record.volumeIdentity ≠ ""
  sequences : m.bufferedPreparedRecords.map Record.sequence =
    List.range' (m.journal.length + 1) m.bufferedPreparedRecords.length
  nextSequence : m.nextSequence = m.journal.length + m.bufferedPreparedRecords.length + 1

/-- No transaction is open. -/
structure ClosedAt (m : TransactionManager) (bound : ℕ) (flushed : List Record) : Prop where
  empty : flushed = []
  next : m.nextTransactionId = bound
  nextSequence : m.nextSequence = m.journal.length + 1
  unbuffered : m.bufferedPreparedRecords = []

/-- Memory, journal and ledger agree. -/
structure CoherentAt (m : TransactionManager) (ledger : Ledger) (bound : ℕ)
    (flushed : List Record) : Prop where
  path : m.journalPath ≠ ""
  continuation : m.continuationSeed = none
  recorded : Recorded codec m.journal bound flushed none ledger.accepted m.watermarks
  boundaries : m.acceptedBoundaries =
    boundariesAbove ledger.accepted m.watermarks.cleanupSequence
  sequence_le : m.nextSequence ≤ exhausted
  transaction_le : m.nextTransactionId ≤ exhausted
  closed : m.state = .idle → ClosedAt m bound flushed
  opened : m.state ≠ .idle → m.recoveryStateValid = true → OpenAt codec m bound flushed ledger.staged

/-- The invariant of a run. -/
def Coherent (m : TransactionManager) (ledger : Ledger) : Prop :=
  ∃ bound flushed, CoherentAt codec m ledger bound flushed

variable {codec}

theorem coherent_fresh (safetyLevel : String) {journalPath : String} (volumeIdentity : String)
    (hpath : journalPath ≠ "") :
    Coherent codec (fresh safetyLevel journalPath volumeIdentity) {} :=
  ⟨1, [], hpath, rfl, Recorded.nil, rfl, by simp [fresh, exhausted], by simp [fresh, exhausted],
    fun _ => ⟨rfl, rfl, rfl, rfl⟩, fun h => absurd rfl h⟩

variable {m : TransactionManager} {ledger : Ledger} {bound : ℕ} {flushed : List Record}

/-- Losing the lease poisons the manager and touches nothing else. -/
theorem CoherentAt.poison (h : CoherentAt codec m ledger bound flushed) :
    CoherentAt codec { m with recoveryStateValid := false } ledger bound flushed :=
  ⟨h.path, h.continuation, h.recorded, h.boundaries, h.sequence_le, h.transaction_le,
    fun hidle => ⟨(h.closed hidle).empty, (h.closed hidle).next, (h.closed hidle).nextSequence,
      (h.closed hidle).unbuffered⟩,
    fun _ hvalid => absurd hvalid (by simp)⟩

/-- A poisoned manager may move to any state but `Idle`. -/
theorem CoherentAt.fail (h : CoherentAt codec m ledger bound flushed)
    (hstate : m.state ≠ .idle ∨ m.recoveryStateValid = false) :
    CoherentAt codec { m with state := .failed } ledger bound flushed :=
  ⟨h.path, h.continuation, h.recorded, h.boundaries, h.sequence_le, h.transaction_le,
    fun hidle => absurd hidle (by simp),
    fun _ hvalid => by
      have hvalid : m.recoveryStateValid = true := hvalid
      have hopen := h.opened (hstate.resolve_right (by simp [hvalid])) hvalid
      exact ⟨hopen.current, hopen.next, hopen.lt, hopen.split, hopen.operations, hopen.prepared,
        hopen.plain, hopen.identified, hopen.sequences, hopen.nextSequence⟩⟩

/-! ## Seeding -/

/-- **What seeding computes** from the journal of a manager with no open
transaction, on any idle manager that is not ahead of the journal. -/
theorem Recorded.seedIdsFromJournalRecords {journal : List Record}
    {history : List AcceptedTransaction} {watermarks : DurabilityWatermarks}
    (h : Recorded codec journal bound [] none history watermarks)
    (hidle : m.state = .idle) (hcontinuation : m.continuationSeed = none)
    (hnext : m.nextTransactionId ≤ bound) (hsequence : m.nextSequence ≤ journal.length + 1)
    (hbound : bound ≤ exhausted) (hlength : journal.length < exhausted) :
    m.seedIdsFromJournalRecords codec journal = (!m.journalAppendAmbiguous,
      { m with
        acceptedBoundaries := boundariesAbove history watermarks.cleanupSequence
        watermarks := watermarks
        lastCommittedSequence := watermarks.apfsDurableSequence
        highestCheckpointedMarkerSequence :=
          (journal.foldl (seedStep codec) {}).highestCheckpointedMarker
        recoveryStateValid := !m.journalAppendAmbiguous
        nextTransactionId := bound
        nextSequence := journal.length + 1 }) := by
  have hseed := h.seed
  have hmax : (journal.foldl (seedStep codec) {}).maxTransactionId + 1 = bound := by
    simpa using hseed.maxTransactionId
  have hmaxSequence := hseed.maxSequence
  have hflush : (journal.foldl (seedStep codec) {}).transactionRequiresSpoolFlush = ∅ :=
    hseed.closed rfl
  have hcleanup := h.cleanup_le
  have hdurable := h.durable_le
  have htransaction : (if m.nextTransactionId ≤
      (journal.foldl (seedStep codec) {}).maxTransactionId then bound
      else m.nextTransactionId) = bound := by
    split <;> omega
  have hnextSequence : (if m.nextSequence ≤ journal.length then journal.length + 1
      else m.nextSequence) = journal.length + 1 := by
    split <;> omega
  have hvalid : ((journal.foldl (seedStep codec) {}).maxTransactionId == exhausted) = false := by
    rw [beq_eq_false_iff_ne]
    omega
  have hvalid' : (journal.length == exhausted) = false := by
    rw [beq_eq_false_iff_ne]
    omega
  unfold TransactionManager.seedIdsFromJournalRecords
  simp only [hidle, h.validateWalSemantics, hcontinuation, ne_eq, not_true, Bool.not_true,
    Bool.false_eq_true, or_self, if_false, Option.all_none, seedStart, hseed.watermarks,
    hseed.boundaries, hseed.valid, hflush, hmaxSequence, hvalid, hvalid', hmax, htransaction,
    hnextSequence, Nat.not_lt.mpr hcleanup, Nat.not_lt.mpr hdurable,
    pruneAcceptedBoundariesThrough, boundariesAbove]
  simp

/-- Reseeding the live manager leaves everything the invariant looks at in place. -/
theorem CoherentAt.reseed (h : CoherentAt codec m ledger bound flushed) (hidle : m.state = .idle)
    (lease : Lease) :
    CoherentAt codec (m.reseedUnlessHeld codec lease).2 ledger bound flushed ∧
      (m.reseedUnlessHeld codec lease).2.state = .idle ∧
      ((m.reseedUnlessHeld codec lease).1 = true → m.recoveryStateValid = true →
        (m.reseedUnlessHeld codec lease).2.recoveryStateValid = true) ∧
      (m.reseedUnlessHeld codec lease).2.nextTransactionId = m.nextTransactionId := by
  have hclosed := h.closed hidle
  obtain rfl := hclosed.empty
  unfold reseedUnlessHeld
  split
  · exact ⟨h, hidle, fun _ hvalid => hvalid, rfl⟩
  · unfold seedIdsFromExistingJournal
    rw [if_neg (by simp [hidle]), if_neg h.path]
    split
    · exact ⟨h.poison, hidle, by simp, rfl⟩
    · have hseq := hclosed.nextSequence
      have hnext := hclosed.next
      have hlimit := h.sequence_le
      have htransaction := h.transaction_le
      rw [h.recorded.seedIdsFromJournalRecords hidle h.continuation (by omega) (by omega)
        (by omega) (by omega)]
      refine ⟨⟨h.path, h.continuation, h.recorded, rfl, ?_, ?_,
        fun _ => ⟨rfl, rfl, rfl, hclosed.unbuffered⟩, fun hne => absurd hidle hne⟩, hidle, ?_, hnext.symm⟩
      · change m.journal.length + 1 ≤ exhausted
        omega
      · change bound ≤ exhausted
        omega
      · intro hsucceeded _
        simp only [Bool.and_eq_true] at hsucceeded
        exact hsucceeded.1.2

/-! ## One lemma for each operation -/

theorem coherent_begin (h : Coherent codec m ledger) (lease : Lease) :
    Coherent codec (m.begin codec lease).2
      (if (m.begin codec lease).1 then { ledger with staged := [] } else ledger) := by
  obtain ⟨bound, flushed, h⟩ := h
  unfold TransactionManager.begin
  split
  · exact ⟨bound, flushed, h⟩
  · rename_i hguard
    simp only [not_or, ne_eq, not_not] at hguard
    obtain ⟨hvalid, hidle, hzero, hexhausted⟩ := hguard
    obtain ⟨hreseed, hstate, -, hnext⟩ := h.reseed hidle lease
    generalize m.reseedUnlessHeld codec lease = reseeded at hreseed hstate hnext
    obtain ⟨succeeded, m'⟩ := reseeded
    cases succeeded with
    | false => exact ⟨bound, flushed, hreseed⟩
    | true =>
      have hclosed := hreseed.closed hstate
      obtain rfl := hclosed.empty
      have hbound : m'.nextTransactionId = bound := hclosed.next
      have hlimit := h.transaction_le
      have hfresh : m'.nextTransactionId < exhausted := by
        change m'.nextTransactionId = m.nextTransactionId at hnext
        omega
      refine ⟨bound, [], hreseed.path, hreseed.continuation, hreseed.recorded, hreseed.boundaries,
        hreseed.sequence_le, hfresh, fun hne => absurd hne (by simp), fun _ _ => ?_⟩
      exact ⟨hbound, by simp [hbound], by omega, rfl, rfl, by simp, by simp, by simp, rfl,
        hclosed.nextSequence⟩

/-- The specification of `AppendPreparedMutationLocked` on a manager with a
journal. -/
theorem appendPreparedMutationLocked_eq_some {mutation prepared : MutationIntent}
    {m' : TransactionManager} (hpath : m.journalPath ≠ "")
    (h : m.appendPreparedMutationLocked codec mutation = some (prepared, m')) :
    m.nextSequence ≠ 0 ∧ m.nextSequence ≠ exhausted ∧
      (m.assignSequence mutation).walSequence = m.nextSequence ∧
      codec.mutationIsConsistent (m.preparedRecord (m.assignSequence mutation)) = true ∧
      prepared = { m.assignSequence mutation with inlinePayload := [] } ∧
      m' = { m with
        bufferedPreparedRecords :=
          m.bufferedPreparedRecords ++ [m.preparedRecord (m.assignSequence mutation)]
        nextSequence := m.nextSequence + 1 } := by
  unfold appendPreparedMutationLocked at h
  simp only at h
  split at h
  · cases h
  · rename_i hsequence
    split at h
    · cases h
    · split at h
      · cases h
      · split at h
        · cases h
        · rename_i hassigned
          split at h
          · cases h
          · rename_i hconsistent
            simp only [Option.some.injEq, Prod.mk.injEq] at h
            simp only [not_or] at hsequence
            simp only [Bool.not_eq_true, Bool.not_eq_false', Bool.and_eq_true] at hconsistent
            exact ⟨hsequence.1, hsequence.2, not_not.mp hassigned, hconsistent.1, h.1.symm,
              h.2.symm⟩

theorem effectiveVolumeIdentity_ne_empty (volumeIdentity : String) :
    effectiveVolumeIdentity volumeIdentity ≠ "" := by
  unfold effectiveVolumeIdentity
  split
  · decide
  · assumption

theorem coherent_recordMutation (h : Coherent codec m ledger) (lease : Lease)
    (mutation : MutationIntent) :
    Coherent codec (m.recordMutation codec lease mutation).2
      (if (m.recordMutation codec lease mutation).1 then
        { ledger with
          staged := ledger.staged ++ [m.preparedRecord (m.assignSequence mutation)] }
      else ledger) := by
  obtain ⟨bound, flushed, h⟩ := h
  unfold TransactionManager.recordMutation
  split
  · exact ⟨bound, flushed, h⟩
  · rename_i hguard
    simp only [not_or, ne_eq, not_not, Bool.not_eq_true, Bool.not_eq_false'] at hguard
    obtain ⟨hvalid, hactive⟩ := hguard
    have hnotIdle : m.state ≠ .idle := by simp [hactive]
    split
    · exact ⟨bound, flushed, h.poison⟩
    · cases happend : m.appendPreparedMutationLocked codec mutation with
      | none => exact ⟨bound, flushed, h⟩
      | some result =>
        obtain ⟨prepared, m'⟩ := result
        obtain ⟨-, hlimit, hassigned, hconsistent, rfl, rfl⟩ :=
          appendPreparedMutationLocked_eq_some h.path happend
        have hopen := h.opened hnotIdle hvalid
        have hsequence_le := h.sequence_le
        refine ⟨bound, flushed, h.path, h.continuation, h.recorded, h.boundaries, ?_,
          h.transaction_le, fun hidle => absurd hidle hnotIdle, fun _ _ => ?_⟩
        · change m.nextSequence + 1 ≤ exhausted
          omega
        · refine ⟨hopen.current, hopen.next, hopen.lt, ?_, ?_, ?_, hopen.plain, ?_, ?_, ?_⟩
          · simp [hopen.split]
          · simp [hopen.operations, assignSequence, preparedRecord]
          · intro record hrecord
            rcases List.mem_append.mp hrecord with hrecord | hrecord
            · exact hopen.prepared record hrecord
            · rw [List.mem_singleton.mp hrecord]
              exact ⟨⟨hopen.current, rfl, isMutationOperation_toWalOperation _⟩, hconsistent⟩
          · intro record hrecord
            rcases List.mem_append.mp hrecord with hrecord | hrecord
            · exact hopen.identified record hrecord
            · rw [List.mem_singleton.mp hrecord]
              exact effectiveVolumeIdentity_ne_empty _
          · have hnext := hopen.nextSequence
            simp only [List.map_append, List.map_cons, List.map_nil, hopen.sequences,
              List.length_append, List.length_cons, List.length_nil, List.range'_concat]
            congr 2
            change (m.assignSequence mutation).walSequence = _
            omega
          · simp [hopen.nextSequence]
            omega

/-- The part of `OpenAt` that does not look at the journal. -/
structure StagedAt (codec : WalCodec) (m : TransactionManager) (bound : ℕ)
    (flushed staged : List Record) : Prop where
  split : staged = flushed ++ m.bufferedPreparedRecords
  operations : m.pendingMutations.map (fun mutation => toWalOperation mutation.kind) =
    staged.map Record.operation
  prepared : ∀ record ∈ staged, PreparedFor record bound ∧ codec.mutationIsConsistent record = true
  identified : ∀ record ∈ m.bufferedPreparedRecords, record.volumeIdentity ≠ ""

theorem OpenAt.stagedAt {staged : List Record} (h : OpenAt codec m bound flushed staged) :
    StagedAt codec m bound flushed staged :=
  ⟨h.split, h.operations, h.prepared, h.identified⟩

/-- Buffered records already carry a volume identity, so they are handed to the
journal as they are. -/
theorem StagedAt.identifiedRecords {staged : List Record}
    (h : StagedAt codec m bound flushed staged) :
    m.identifiedRecords = m.bufferedPreparedRecords := by
  unfold TransactionManager.identifiedRecords
  refine (List.map_congr_left fun record hrecord => ?_).trans (List.map_id _)
  exact if_neg (h.identified record hrecord)

theorem StagedAt.mem_staged {staged : List Record} (h : StagedAt codec m bound flushed staged)
    {record : Record} (hrecord : record ∈ m.bufferedPreparedRecords) : record ∈ staged := by
  rw [h.split]
  exact List.mem_append_right _ hrecord

/-- A staged record carries an intent only if a pending mutation does. -/
theorem StagedAt.carriesIntent_eq_false {staged : List Record}
    (h : StagedAt codec m bound flushed staged)
    (hpending : ¬ (m.pendingMutations.any fun mutation =>
      carriesIntent (toWalOperation mutation.kind)) = true) :
    ∀ record ∈ staged, carriesIntent record.operation = false := by
  intro record hrecord
  have hmem : record.operation ∈ staged.map Record.operation := List.mem_map_of_mem hrecord
  rw [← h.operations] at hmem
  obtain ⟨mutation, hmutation, heq⟩ := List.mem_map.mp hmem
  rw [← heq]
  simp only [List.any_eq_true, not_exists, not_and, Bool.not_eq_true] at hpending
  exact hpending mutation hmutation

theorem coherent_flushPreparedRecords (h : Coherent codec m ledger) (lease : Lease) :
    Coherent codec (m.flushPreparedRecords lease).2 ledger := by
  obtain ⟨bound, flushed, h⟩ := h
  unfold TransactionManager.flushPreparedRecords
  split
  · exact ⟨bound, flushed, h⟩
  · rename_i hintents
    split
    · exact ⟨bound, flushed, h⟩
    · rename_i hvalid
      split
      · exact ⟨bound, flushed, h⟩
      · rename_i hbuffered
        rw [if_neg h.path]
        split
        · exact ⟨bound, flushed, h.poison⟩
        · split
          · exact ⟨bound, flushed, h⟩
          · have hnotIdle : m.state ≠ .idle := fun hidle => hbuffered (h.closed hidle).unbuffered
            have hvalid : m.recoveryStateValid = true := by simpa using hvalid
            have hopen := h.opened hnotIdle hvalid
            have hnext := hopen.nextSequence
            have hlimit := h.sequence_le
            have hplain := hopen.stagedAt.carriesIntent_eq_false hintents
            have hrecorded := h.recorded.prepareAll m.bufferedPreparedRecords
              (fun record hrecord => ⟨(hopen.prepared record (hopen.stagedAt.mem_staged hrecord)).1,
                hplain record (hopen.stagedAt.mem_staged hrecord)⟩)
              hopen.lt hopen.sequences (by omega)
            rw [hopen.stagedAt.identifiedRecords]
            refine ⟨bound, flushed ++ m.bufferedPreparedRecords, h.path, h.continuation,
              hrecorded, h.boundaries, hlimit, h.transaction_le,
              fun hidle => absurd hidle hnotIdle, fun _ _ => ?_⟩
            refine ⟨hopen.current, hopen.next, hopen.lt, ?_, hopen.operations, hopen.prepared,
              ?_, by simp [clearBufferedPreparedRecords], rfl, ?_⟩
            · simpa [clearBufferedPreparedRecords] using hopen.split
            · intro record hrecord
              exact hplain record (by rwa [hopen.split])
            · simp only [clearBufferedPreparedRecords, List.length_append, List.length_nil]
              omega

/-- The specification of `PersistTransactionBatchLocked` when it succeeds on a
manager with a journal. -/
theorem persistTransactionBatchLocked_eq_true {lease : Lease} {outcome : Outcome}
    {preimage : ℕ} {m' : TransactionManager}
    (h : m.persistTransactionBatchLocked codec lease outcome preimage = (true, m'))
    (hpath : m.journalPath ≠ "") :
    m.nextSequence ≠ exhausted ∧
      (outcome ≠ .aborted → m.intentsAdmitted codec preimage = true) ∧
      m' = (({ m with
        journal := m.journal ++ m.identifiedRecords ++
          [m.buildTransactionMarkerLocked outcome preimage]
        nextSequence := m.nextSequence + 1 } : TransactionManager).observeMarker outcome
          m.nextSequence).clearBufferedPreparedRecords := by
  unfold persistTransactionBatchLocked at h
  split at h
  · simp at h
  · rename_i hsequence
    split at h
    · simp at h
    · rename_i hintents
      split at h
      · simp at h
      · split at h
        · simp at h
        · simp only [Prod.mk.injEq, true_and] at h
          refine ⟨fun heq => hsequence (.inr heq), fun hne => ?_, h.symm⟩
          by_contra hfalse
          exact hintents ⟨hne, by simpa using hfalse⟩

/-- When it fails it changes nothing but, after a lost lease, the validity flag. -/
theorem persistTransactionBatchLocked_eq_false {lease : Lease} {outcome : Outcome}
    {preimage : ℕ} {m' : TransactionManager}
    (h : m.persistTransactionBatchLocked codec lease outcome preimage = (false, m'))
    (hpath : m.journalPath ≠ "") :
    m' = m ∨ m' = { m with recoveryStateValid := false } := by
  unfold persistTransactionBatchLocked at h
  split at h
  · simp only [Prod.mk.injEq, true_and] at h
    exact .inl h.symm
  · split at h
    · simp only [Prod.mk.injEq, true_and] at h
      exact .inl h.symm
    · split at h
      · simp only [Prod.mk.injEq, true_and] at h
        exact .inr h.symm
      · split at h
        · simp only [Prod.mk.injEq, true_and] at h
          exact .inl h.symm
        · simp at h

/-- One guard of `intentsAdmitted`, read off for a transaction whose staged record
belongs to the guarded family. -/
theorem intentAdmitted_find {preimage : ℕ} {family : OperationKind → Bool}
    {checkpointOf : Record → Option ℕ} (h : m.intentAdmitted preimage family checkpointOf = true)
    {mutation : MutationIntent} (hmutation : mutation ∈ m.pendingMutations)
    (hfamily : family (toWalOperation mutation.kind) = true) :
    m.pendingMutations.length = 1 ∧ ∃ record ∈ m.bufferedPreparedRecords,
      family record.operation = true ∧ checkpointOf record = some preimage := by
  unfold intentAdmitted at h
  have hguard := List.all_eq_true.mp h mutation hmutation
  simp only [hfamily, Bool.not_true, Bool.false_or, Bool.and_eq_true, beq_iff_eq] at hguard
  obtain ⟨⟨-, hone⟩, hfind⟩ := hguard
  refine ⟨hone, ?_⟩
  split at hfind
  · cases hfind
  · rename_i record hrecord
    exact ⟨record, List.mem_of_find?_eq_some hrecord, by simpa using List.find?_some hrecord,
      by simpa using hfind⟩

/-- **An admitted intent is the whole transaction.**  Either no staged record
carries an intent, or the one staged record does, is still buffered, and was taken
against the preimage checkpoint. -/
theorem StagedAt.intent {staged : List Record} {preimage : ℕ}
    (h : StagedAt codec m bound flushed staged)
    (hadmitted : m.intentsAdmitted codec preimage = true) :
    (∀ record ∈ staged, carriesIntent record.operation = false) ∨
      ∃ record, flushed = [] ∧ m.bufferedPreparedRecords = [record] ∧
        carriesIntent record.operation = true ∧
        intentCheckpoint codec record = some preimage := by
  by_cases hpending : (m.pendingMutations.any fun mutation =>
      carriesIntent (toWalOperation mutation.kind)) = true
  swap
  · exact .inl (h.carriesIntent_eq_false hpending)
  right
  obtain ⟨mutation, hmutation, hcarries⟩ := List.any_eq_true.mp hpending
  have hconsistent : ∀ record ∈ m.bufferedPreparedRecords,
      codec.mutationIsConsistent record = true :=
    fun record hrecord => (h.prepared record (h.mem_staged hrecord)).2
  simp only [WalCodec.mutationIsConsistent, Bool.and_eq_true] at hconsistent
  simp only [intentsAdmitted, Bool.and_eq_true] at hadmitted
  obtain ⟨⟨⟨⟨⟨⟨⟨hclone, hlink⟩, hrange⟩, hsparse⟩, hquota⟩, hsnapshot⟩, hrepair⟩, hrename⟩ :=
    hadmitted
  -- each family of intents has its own guard
  have hfound : m.pendingMutations.length = 1 ∧ ∃ record ∈ m.bufferedPreparedRecords,
      carriesIntent record.operation = true ∧ intentCheckpoint codec record = some preimage := by
    have conclude : ∀ {family : OperationKind → Bool} {checkpointOf : Record → Option ℕ},
        m.intentAdmitted preimage family checkpointOf = true →
        family (toWalOperation mutation.kind) = true →
        (∀ record ∈ m.bufferedPreparedRecords, family record.operation = true →
          checkpointOf record = some preimage →
          carriesIntent record.operation = true ∧
            intentCheckpoint codec record = some preimage) →
        m.pendingMutations.length = 1 ∧ ∃ record ∈ m.bufferedPreparedRecords,
          carriesIntent record.operation = true ∧
            intentCheckpoint codec record = some preimage := by
      intro family checkpointOf hguard hfamily hrecord
      obtain ⟨hone, record, hmem, hop, hcheckpoint⟩ := intentAdmitted_find hguard hmutation hfamily
      exact ⟨hone, record, hmem, hrecord record hmem hop hcheckpoint⟩
    cases hkind : toWalOperation mutation.kind <;> rw [hkind] at hcarries <;>
      first | (exact absurd hcarries (by decide)) | skip
    case cloneFile =>
      refine conclude hclone (by rw [hkind]; rfl) fun record hmem hop hcheckpoint => ?_
      have hop : record.operation = .cloneFile := by simpa using hop
      have := hconsistent record hmem
      exact ⟨by rw [hop]; rfl, by simp [intentCheckpoint, hop, this, hcheckpoint]⟩
    case renameVolume =>
      refine conclude hrename (by rw [hkind]; rfl) fun record hmem hop hcheckpoint => ?_
      have hop : record.operation = .renameVolume := by simpa using hop
      have := hconsistent record hmem
      exact ⟨by rw [hop]; rfl, by simp [intentCheckpoint, hop, this, hcheckpoint]⟩
    case createSnapshot =>
      refine conclude hsnapshot (by rw [hkind]; rfl) fun record hmem hop hcheckpoint => ?_
      have hop : record.operation = .createSnapshot ∨ record.operation = .deleteSnapshot := by
        simpa using hop
      have := hconsistent record hmem
      rcases hop with hop | hop <;>
        exact ⟨by rw [hop]; rfl, by simp [intentCheckpoint, hop, this, hcheckpoint]⟩
    case deleteSnapshot =>
      refine conclude hsnapshot (by rw [hkind]; rfl) fun record hmem hop hcheckpoint => ?_
      have hop : record.operation = .createSnapshot ∨ record.operation = .deleteSnapshot := by
        simpa using hop
      have := hconsistent record hmem
      rcases hop with hop | hop <;>
        exact ⟨by rw [hop]; rfl, by simp [intentCheckpoint, hop, this, hcheckpoint]⟩
    case repairVolumeFileCount =>
      refine conclude hrepair (by rw [hkind]; rfl) fun record hmem hop hcheckpoint => ?_
      have hop : record.operation = .repairVolumeFileCount := by simpa using hop
      have := hconsistent record hmem
      exact ⟨by rw [hop]; rfl, by simp [intentCheckpoint, hop, this, hcheckpoint]⟩
    case setVolumeQuotaReserve =>
      refine conclude hquota (by rw [hkind]; rfl) fun record hmem hop hcheckpoint => ?_
      have hop : record.operation = .setVolumeQuotaReserve := by simpa using hop
      have := hconsistent record hmem
      exact ⟨by rw [hop]; rfl, by simp [intentCheckpoint, hop, this, hcheckpoint]⟩
    case hardLink =>
      refine conclude hlink (by rw [hkind]; rfl) fun record hmem hop hcheckpoint => ?_
      have hop : record.operation = .hardLink := by simpa using hop
      exact ⟨by rw [hop]; rfl, by simpa [intentCheckpoint, hop] using hcheckpoint⟩
    case nativeSparse =>
      refine conclude hsparse (by rw [hkind]; rfl) fun record hmem hop hcheckpoint => ?_
      have hop : record.operation = .nativeSparse := by simpa using hop
      exact ⟨by rw [hop]; rfl, by simpa [intentCheckpoint, hop] using hcheckpoint⟩
    case cloneRange =>
      refine conclude hrange (by rw [hkind]; rfl) fun record hmem hop hcheckpoint => ?_
      have hop : record.operation = .cloneRange := by simpa using hop
      exact ⟨by rw [hop]; rfl, by simpa [intentCheckpoint, hop] using hcheckpoint⟩
  obtain ⟨hone, record, hmem, hcarriesRecord, hcheckpoint⟩ := hfound
  have hlength : staged.length = 1 := by
    have := congrArg List.length h.operations
    simp only [List.length_map] at this
    omega
  have hsplit := congrArg List.length h.split
  simp only [List.length_append, hlength] at hsplit
  have hbuffered : 0 < m.bufferedPreparedRecords.length := List.length_pos_of_mem hmem
  have hflushed : flushed = [] := List.length_eq_zero_iff.mp (by omega)
  obtain ⟨other, hother⟩ := List.length_eq_one_iff.mp
    (show m.bufferedPreparedRecords.length = 1 by omega)
  rw [hother] at hmem
  obtain rfl := List.mem_singleton.mp hmem
  exact ⟨record, hflushed, hother, hcarriesRecord, hcheckpoint⟩

/-- The journal after an accepted batch: the buffered records, then the marker. -/
theorem CoherentAt.acceptBatch {preimage : ℕ} (h : CoherentAt codec m ledger bound flushed)
    (hopen : OpenAt codec m bound flushed ledger.staged)
    (hpending : m.pendingMutations ≠ []) (hexhausted : m.nextSequence ≠ exhausted)
    (hadmitted : m.intentsAdmitted codec preimage = true) :
    Recorded codec (m.journal ++ m.identifiedRecords ++
        [m.buildTransactionMarkerLocked .accepted preimage]) (bound + 1) [] none
      (ledger.accepted ++ [⟨bound, m.nextSequence, ledger.staged, preimage⟩])
      { m.watermarks with acceptedSequence := m.nextSequence } := by
  have hlimit := h.sequence_le
  have hnext := hopen.nextSequence
  have hstaged : ledger.staged ≠ [] := by
    intro hnil
    have := hopen.operations
    rw [hnil] at this
    exact hpending (List.map_eq_nil_iff.mp this)
  have hlength : m.pendingMutations.length = ledger.staged.length := by
    simpa using congrArg List.length hopen.operations
  have hsequence : m.nextSequence = (m.journal ++ m.bufferedPreparedRecords).length + 1 := by
    simp only [List.length_append]
    omega
  have hmarker : MarkerFor (m.buildTransactionMarkerLocked .accepted preimage) bound
      ((m.journal ++ m.bufferedPreparedRecords).length + 1) :=
    ⟨hopen.current, rfl, hsequence⟩
  have hbound : (m.buildTransactionMarkerLocked .accepted preimage).sequence < exhausted :=
    lt_of_le_of_ne hlimit hexhausted
  have hcount : (m.buildTransactionMarkerLocked .accepted preimage).logicalLength =
      ledger.staged.length := hlength
  rw [hopen.stagedAt.identifiedRecords, hsequence]
  rcases hopen.stagedAt.intent hadmitted with hplain | ⟨record, rfl, hbuffered, hcarries, hcheckpoint⟩
  · have hprepared := h.recorded.prepareAll m.bufferedPreparedRecords
      (fun record hrecord => ⟨(hopen.prepared record (hopen.stagedAt.mem_staged hrecord)).1,
        hplain record (hopen.stagedAt.mem_staged hrecord)⟩) hopen.lt hopen.sequences (by omega)
    rw [← hopen.split] at hprepared
    exact hprepared.accept hmarker hopen.lt hbound rfl rfl hstaged hcount (by simp)
  · have hmem : record ∈ ledger.staged := hopen.stagedAt.mem_staged (by rw [hbuffered]; simp)
    have hsequence' : record.sequence = m.journal.length + 1 := by
      simpa [hbuffered] using hopen.sequences
    simp only [hbuffered, List.length_cons, List.length_nil] at hnext
    have hstep : IntentStep codec record none (some preimage) := by
      unfold IntentStep
      rw [if_pos hcarries]
      exact ⟨rfl, preimage, hcheckpoint, rfl⟩
    have hprepared := h.recorded.prepare (hopen.prepared record hmem).1 hstep hopen.lt hsequence'
      (by omega)
    have hsplit := hopen.split
    rw [hbuffered] at hsplit hmarker ⊢
    rw [← hsplit] at hprepared
    refine hprepared.accept hmarker hopen.lt hbound rfl rfl hstaged hcount ?_
    rintro checkpoint ⟨⟩
    exact ⟨rfl, by simp [hsplit]⟩

/-- An accepted batch leaves an idle manager that knows one more transaction. -/
theorem CoherentAt.accepted {lease : Lease} {preimage : ℕ} {m' : TransactionManager}
    (h : CoherentAt codec m ledger bound flushed) (hvalid : m.recoveryStateValid = true)
    (hactive : m.state = .active) (hpending : m.pendingMutations ≠ [])
    (hpersist : ({ m with state := .committing } : TransactionManager).persistTransactionBatchLocked
      codec lease .accepted preimage = (true, m')) :
    CoherentAt codec m'.closeTransaction
      { accepted := ledger.accepted ++
          [⟨m.currentTransactionId, m.nextSequence, ledger.staged, preimage⟩] }
      (bound + 1) [] := by
  have hopen := h.opened (by simp [hactive]) hvalid
  obtain ⟨hexhausted, hadmitted, rfl⟩ := persistTransactionBatchLocked_eq_true hpersist h.path
  have hlimit := h.sequence_le
  have hrecorded := h.acceptBatch hopen hpending hexhausted (hadmitted (by simp))
  have hnext := hopen.nextSequence
  have hdurable := h.recorded.durable_le
  have hcleanup := h.recorded.cleanup_le
  have hwritten := h.recorded.written
  rw [← hopen.current] at hrecorded ⊢
  refine ⟨h.path, h.continuation, hrecorded, ?_, ?_, ?_, fun _ => ⟨rfl, ?_, ?_, rfl⟩,
    fun hne => absurd rfl hne⟩
  · change insert m.nextSequence m.acceptedBoundaries = _
    rw [h.boundaries]
    ext boundary
    simp only [boundariesAbove, Finset.mem_insert, Finset.mem_filter, List.mem_toFinset,
      List.map_append, List.mem_append, List.map_cons, List.map_nil, List.mem_singleton,
      closeTransaction, clearBufferedPreparedRecords, observeMarker]
    constructor
    · rintro (rfl | ⟨hmem, hlt⟩)
      · exact ⟨.inr rfl, by omega⟩
      · exact ⟨.inl hmem, hlt⟩
    · rintro ⟨hmem | rfl, hlt⟩
      · exact .inr ⟨hmem, hlt⟩
      · exact .inl rfl
  · change m.nextSequence + 1 ≤ exhausted
    have hexhausted : m.nextSequence ≠ exhausted := hexhausted
    omega
  · exact h.transaction_le
  · change m.nextTransactionId = m.currentTransactionId + 1
    rw [hopen.next, hopen.current]
  · change m.nextSequence + 1 = (m.journal ++ m.identifiedRecords ++ [_]).length + 1
    rw [hopen.stagedAt.identifiedRecords]
    simp only [List.length_append, List.length_cons, List.length_nil]
    omega

/-- A batch that is refused leaves the transaction open in the `Failed` state. -/
theorem CoherentAt.refused {lease : Lease} {outcome : Outcome} {preimage : ℕ}
    {m' : TransactionManager} (h : CoherentAt codec m ledger bound flushed)
    (hactive : m.state = .active)
    (hpersist : ({ m with state := .committing } : TransactionManager).persistTransactionBatchLocked
      codec lease outcome preimage = (false, m')) :
    CoherentAt codec { m' with state := .failed } ledger bound flushed := by
  have hnotIdle : m.state ≠ .idle := by simp [hactive]
  rcases persistTransactionBatchLocked_eq_false hpersist h.path with rfl | rfl
  · exact h.fail (.inl hnotIdle)
  · exact h.poison.fail (.inl hnotIdle)

theorem coherent_accept (h : Coherent codec m ledger) (lease : Lease) (preimage : ℕ) :
    Coherent codec (m.accept codec lease preimage).2
      (if (m.accept codec lease preimage).1 then
        { accepted := ledger.accepted ++
            [⟨m.currentTransactionId, m.nextSequence, ledger.staged, preimage⟩] }
      else ledger) := by
  obtain ⟨bound, flushed, h⟩ := h
  unfold TransactionManager.accept
  split
  · exact ⟨bound, flushed, h⟩
  · rename_i hguard
    simp only [not_or, ne_eq, not_not, Bool.not_eq_true, Bool.not_eq_false'] at hguard
    obtain ⟨hvalid, hactive, hpending⟩ := hguard
    generalize hpersist : ({ m with state := .committing } :
      TransactionManager).persistTransactionBatchLocked codec lease .accepted preimage = result
    obtain ⟨succeeded, m'⟩ := result
    cases succeeded with
    | false => exact ⟨bound, flushed, h.refused hactive hpersist⟩
    | true => exact ⟨bound + 1, [], h.accepted hvalid hactive hpending hpersist⟩

theorem coherent_acceptForDeferredCommit (h : Coherent codec m ledger) (lease : Lease)
    (preimage : ℕ) :
    Coherent codec (m.acceptForDeferredCommit codec lease preimage).2
      (if (m.acceptForDeferredCommit codec lease preimage).1 then
        { accepted := ledger.accepted ++
            [⟨m.currentTransactionId, m.nextSequence, ledger.staged, preimage⟩] }
      else ledger) := by
  obtain ⟨bound, flushed, h⟩ := h
  unfold TransactionManager.acceptForDeferredCommit
  split
  · exact ⟨bound, flushed, h⟩
  · rename_i hguard
    simp only [not_or, ne_eq, not_not, Bool.not_eq_true, Bool.not_eq_false'] at hguard
    obtain ⟨hvalid, hactive, hpending⟩ := hguard
    generalize hpersist : ({ m with state := .committing } :
      TransactionManager).persistTransactionBatchLocked codec lease .accepted preimage = result
    obtain ⟨succeeded, m'⟩ := result
    cases succeeded with
    | false => exact ⟨bound, flushed, h.refused hactive hpersist⟩
    | true =>
      have haccepted := h.accepted hvalid hactive hpending hpersist
      refine ⟨bound + 1, [], haccepted.path, haccepted.continuation, haccepted.recorded,
        haccepted.boundaries, haccepted.sequence_le, haccepted.transaction_le, fun hidle => ?_,
        fun hne => absurd rfl hne⟩
      have hclosed := haccepted.closed hidle
      exact ⟨hclosed.empty, hclosed.next, hclosed.nextSequence, hclosed.unbuffered⟩

/-- `PersistTransactionBatchLocked` for an abort, which has emptied the buffer. -/
theorem persistTransactionBatchLocked_aborted (lease : Lease) (hpath : m.journalPath ≠ "")
    (hbuffered : m.bufferedPreparedRecords = []) :
    m.persistTransactionBatchLocked codec lease .aborted 0 =
      if m.nextSequence = 0 ∨ m.nextSequence = exhausted then (false, m)
      else if !lease.held then (false, { m with recoveryStateValid := false })
      else (true, { m with
        journal := m.journal ++ [m.buildTransactionMarkerLocked .aborted 0]
        nextSequence := m.nextSequence + 1 }) := by
  unfold persistTransactionBatchLocked
  simp only [ne_eq, not_true, false_and, if_false, hpath, bufferedSequencesAdmitted, hbuffered,
    List.all_nil, Bool.not_true, Bool.false_eq_true, identifiedRecords, List.map_nil,
    List.append_nil, observeMarker, clearBufferedPreparedRecords]

/-- Where an abort rewinds the sequence to: just past the journal. -/
theorem OpenAt.rewind_nextSequence {staged : List Record}
    (h : OpenAt codec m bound flushed staged) :
    m.rewind.nextSequence = m.journal.length + 1 := by
  unfold rewind
  have hsequences := h.sequences
  have hnext := h.nextSequence
  cases hbuffered : m.bufferedPreparedRecords with
  | nil => simpa [hbuffered] using hnext
  | cons first rest =>
    rw [hbuffered] at hsequences
    simp only [List.map_cons, List.length_cons, List.range'_succ, List.cons.injEq] at hsequences
    exact hsequences.1

theorem coherent_abort (h : Coherent codec m ledger) (lease : Lease) :
    Coherent codec (m.abort codec lease).2
      (if (m.abort codec lease).1 then { ledger with staged := [] } else ledger) := by
  obtain ⟨bound, flushed, h⟩ := h
  unfold TransactionManager.abort
  split
  · rename_i hvalid
    exact ⟨bound, flushed, h.fail (.inr (by simpa using hvalid))⟩
  · rename_i hvalid
    have hvalid : m.recoveryStateValid = true := by simpa using hvalid
    split
    · rename_i hidle
      refine ⟨bound, flushed, h.path, h.continuation, h.recorded, h.boundaries, h.sequence_le,
        h.transaction_le, h.closed, fun hne => absurd hidle hne⟩
    · rename_i hnotIdle
      split
      · exact ⟨bound, flushed, h.fail (.inl hnotIdle)⟩
      · have hopen := h.opened hnotIdle hvalid
        have hlimit := h.sequence_le
        have hnext := hopen.nextSequence
        have hrewind := hopen.rewind_nextSequence
        rw [persistTransactionBatchLocked_aborted (m := m.rewind) lease h.path rfl]
        by_cases hsequence : m.rewind.nextSequence = 0 ∨ m.rewind.nextSequence = exhausted
        · -- the sequence is exhausted, so nothing was buffered and nothing was rewound
          have hbuffered : m.bufferedPreparedRecords = [] :=
            List.length_eq_zero_iff.mp (by omega)
          rw [if_pos hsequence]
          refine ⟨bound, flushed, h.path, h.continuation, h.recorded, h.boundaries, ?_,
            h.transaction_le, fun hidle => absurd hidle (by simp [rewind]),
            fun _ _ => ⟨hopen.current, hopen.next, hopen.lt, ?_, hopen.operations,
              hopen.prepared, hopen.plain, by simp [rewind], rfl, hrewind⟩⟩
          · change m.rewind.nextSequence ≤ exhausted
            omega
          · simpa [rewind, hbuffered] using hopen.split
        · rw [if_neg hsequence]
          by_cases hlease : (!lease.held) = true
          · rw [if_pos hlease]
            refine ⟨bound, flushed, h.path, h.continuation, h.recorded, h.boundaries, ?_,
              h.transaction_le, fun hidle => absurd hidle (by simp [rewind]),
              fun _ hpoisoned => absurd hpoisoned (by simp)⟩
            change m.rewind.nextSequence ≤ exhausted
            omega
          · have hmarker : MarkerFor (m.rewind.buildTransactionMarkerLocked .aborted 0) bound
                (m.journal.length + 1) := ⟨hopen.current, rfl, hrewind⟩
            have hrecorded := h.recorded.abort hmarker hopen.lt
              (show m.rewind.nextSequence < exhausted by omega) rfl rfl
            rw [if_neg hlease]
            refine ⟨bound + 1, [], h.path, h.continuation, hrecorded, h.boundaries, ?_,
              h.transaction_le, fun _ => ⟨rfl, hopen.next, ?_, rfl⟩, fun hne => absurd rfl hne⟩
            · change m.rewind.nextSequence + 1 ≤ exhausted
              omega
            · change m.rewind.nextSequence + 1 = (m.journal ++ [_]).length + 1
              simp [hrewind]

/-! ### Watermarks -/

theorem CoherentAt.ensureDeferred (h : CoherentAt codec m ledger bound flushed)
    (hidle : m.state = .idle) (target : ℕ) (flushResult : Bool) :
    CoherentAt codec (m.ensureDeferredAcceptanceDurability target flushResult).2 ledger bound
        flushed ∧
      (m.ensureDeferredAcceptanceDurability target flushResult).2.state = .idle ∧
      (m.ensureDeferredAcceptanceDurability target flushResult).2.recoveryStateValid =
        m.recoveryStateValid ∧
      (m.ensureDeferredAcceptanceDurability target flushResult).2.watermarks = m.watermarks ∧
      (m.ensureDeferredAcceptanceDurability target flushResult).2.acceptedBoundaries =
        m.acceptedBoundaries := by
  have hclosed := h.closed hidle
  unfold ensureDeferredAcceptanceDurability
  split
  · exact ⟨h, hidle, rfl, rfl, rfl⟩
  · split
    · exact ⟨h, hidle, rfl, rfl, rfl⟩
    · split
      · exact ⟨h, hidle, rfl, rfl, rfl⟩
      · split
        · exact ⟨⟨h.path, h.continuation, h.recorded, h.boundaries, h.sequence_le,
            h.transaction_le,
            fun _ => ⟨hclosed.empty, hclosed.next, hclosed.nextSequence, hclosed.unbuffered⟩,
            fun hne => absurd hidle hne⟩, hidle, rfl, rfl, rfl⟩
        · exact ⟨⟨h.path, h.continuation, h.recorded, h.boundaries, h.sequence_le,
            h.transaction_le,
            fun _ => ⟨hclosed.empty, hclosed.next, hclosed.nextSequence, hclosed.unbuffered⟩,
            fun hne => absurd hidle hne⟩, hidle, rfl, rfl, rfl⟩

theorem CoherentAt.durabilityFailure (h : CoherentAt codec m ledger bound flushed) :
    CoherentAt codec m.markDeferredAcceptanceDurabilityFailure ledger bound flushed :=
  ⟨h.path, h.continuation, h.recorded, h.boundaries, h.sequence_le, h.transaction_le,
    fun hidle => absurd hidle (by simp [markDeferredAcceptanceDurabilityFailure]),
    fun _ hvalid => absurd hvalid (by simp [markDeferredAcceptanceDurabilityFailure])⟩

/-- The specification of `AppendWatermarkLocked` on a manager with a journal. -/
theorem appendWatermarkLocked_cases {lease : Lease} {recordState : RecordState} {target : ℕ}
    (hpath : m.journalPath ≠ "") :
    (∃ m', m.appendWatermarkLocked lease recordState target = (false, m') ∧
        (m' = m ∨ m' = { m with recoveryStateValid := false })) ∨
      (m.nextSequence ≠ exhausted ∧ m.appendWatermarkLocked lease recordState target =
        (true, { m with
          journal := m.journal ++ [m.watermarkRecord recordState target]
          nextSequence := m.nextSequence + 1 })) := by
  unfold appendWatermarkLocked
  split
  · exact .inl ⟨m, rfl, .inl rfl⟩
  · rename_i hguard
    split
    · exact .inl ⟨_, rfl, .inr rfl⟩
    · exact .inr ⟨fun heq => hguard (.inr (.inr heq)), rfl⟩

/-- `markThrough` keeps the invariant when advancing memory past the appended
watermark does. -/
theorem coherent_markThrough (h : Coherent codec m ledger) (lease appendLease : Lease)
    (flushResult : Bool) (recordState : RecordState) (lower upper : DurabilityWatermarks → ℕ)
    (advance : TransactionManager → TransactionManager) (target : ℕ)
    (hadvance : ∀ {m : TransactionManager} {bound : ℕ}, CoherentAt codec m ledger bound [] →
      m.state = .idle → lower m.watermarks < target → target ≤ upper m.watermarks →
      target ∈ m.acceptedBoundaries → m.nextSequence ≠ exhausted →
      Coherent codec (advance { m with
        journal := m.journal ++ [m.watermarkRecord recordState target]
        nextSequence := m.nextSequence + 1 }) ledger) :
    Coherent codec (m.markThrough codec lease appendLease flushResult recordState lower upper
      advance target).2 ledger := by
  obtain ⟨bound, flushed, h⟩ := h
  unfold markThrough
  split
  · exact ⟨bound, flushed, h⟩
  · rename_i hguard
    simp only [not_or, ne_eq, not_not] at hguard
    obtain ⟨hreseed, hidle, -, -⟩ := h.reseed hguard.2 lease
    generalize m.reseedUnlessHeld codec lease = reseeded at hreseed hidle
    obtain ⟨succeeded, m₁⟩ := reseeded
    cases succeeded with
    | false => exact ⟨bound, flushed, hreseed⟩
    | true =>
      have hclosed := hreseed.closed hidle
      obtain rfl := hclosed.empty
      simp only
      split
      · exact ⟨bound, [], hreseed⟩
      · rename_i hrange
        split
        · exact ⟨bound, [], hreseed⟩
        · rename_i hne
          split
          · exact ⟨bound, [], hreseed⟩
          · rename_i hboundary
            obtain ⟨hensure, hidle', -, hwatermarks, hboundaries⟩ :=
              hreseed.ensureDeferred hidle target flushResult
            generalize m₁.ensureDeferredAcceptanceDurability target flushResult = ensured
              at hensure hidle' hwatermarks hboundaries
            obtain ⟨succeeded, m₂⟩ := ensured
            cases succeeded with
            | false => exact ⟨bound, [], hensure.durabilityFailure⟩
            | true =>
              simp only at hwatermarks hboundaries ⊢
              rcases appendWatermarkLocked_cases hensure.path with
                ⟨m₃, happend, rfl | rfl⟩ | ⟨hexhausted, happend⟩
              · rw [happend]
                exact ⟨bound, [], hensure⟩
              · rw [happend]
                exact ⟨bound, [], hensure.poison⟩
              · rw [happend]
                refine hadvance hensure hidle' ?_ ?_ ?_ hexhausted
                · rw [hwatermarks]
                  omega
                · rw [hwatermarks]
                  omega
                · rw [hboundaries]
                  exact not_not.mp hboundary

theorem mem_boundariesAbove {history : List AcceptedTransaction} {cleanup boundary : ℕ} :
    boundary ∈ boundariesAbove history cleanup ↔
      boundary ∈ history.map AcceptedTransaction.acceptedSequence ∧ cleanup < boundary := by
  simp [boundariesAbove]

theorem coherent_markApfsDurableThrough (h : Coherent codec m ledger)
    (lease appendLease : Lease) (flushResult : Bool) (target : ℕ) :
    Coherent codec (m.markApfsDurableThrough codec lease appendLease flushResult target).2
      ledger := by
  refine coherent_markThrough h lease appendLease flushResult _ _ _ _ target ?_
  intro m bound h hidle hlower hupper hboundary hexhausted
  have hclosed := h.closed hidle
  have hlimit := h.sequence_le
  have hcleanup := h.recorded.cleanup_le
  rw [h.boundaries, mem_boundariesAbove] at hboundary
  have hnext := hclosed.nextSequence
  have hwatermark : (m.watermarkRecord .checkpointed target).operation = .durabilityWatermark :=
    rfl
  have hseed := h.recorded.seed.durable codec hwatermark rfl hnext rfl hlower.le hupper
    hboundary.1
  have hrecorded := h.recorded.watermark hwatermark rfl rfl
    (show target ≠ 0 by omega) (.inl rfl) hnext (show m.nextSequence < exhausted by omega)
    hseed rfl (show m.watermarks.cleanupSequence ≤ target by omega) hupper
  refine ⟨bound, [], h.path, h.continuation, hrecorded, h.boundaries, ?_, h.transaction_le,
    fun _ => ⟨rfl, hclosed.next, ?_, hclosed.unbuffered⟩, fun hne => absurd hidle hne⟩
  · change m.nextSequence + 1 ≤ exhausted
    omega
  · change m.nextSequence + 1 = (m.journal ++ [_]).length + 1
    simp [hnext]

theorem coherent_markCleanedThrough (h : Coherent codec m ledger)
    (lease appendLease : Lease) (flushResult : Bool) (target : ℕ) :
    Coherent codec (m.markCleanedThrough codec lease appendLease flushResult target).2
      ledger := by
  refine coherent_markThrough h lease appendLease flushResult _ _ _ _ target ?_
  intro m bound h hidle hlower hupper hboundary hexhausted
  have hclosed := h.closed hidle
  have hlimit := h.sequence_le
  have hdurable := h.recorded.durable_le
  rw [h.boundaries, mem_boundariesAbove] at hboundary
  have hnext := hclosed.nextSequence
  have hwatermark : (m.watermarkRecord .cleaned target).operation = .durabilityWatermark := rfl
  have hseed := h.recorded.seed.cleaned codec hwatermark rfl hnext rfl hlower.le hupper
    hboundary.1
  have hrecorded := h.recorded.watermark hwatermark rfl rfl
    (show target ≠ 0 by omega) (.inr rfl) hnext (show m.nextSequence < exhausted by omega)
    hseed rfl hupper hdurable
  refine ⟨bound, [], h.path, h.continuation, hrecorded, ?_, ?_, h.transaction_le,
    fun _ => ⟨rfl, hclosed.next, ?_, hclosed.unbuffered⟩, fun hne => absurd hidle hne⟩
  · -- pruning at the new watermark is pruning at the old one and then some
    ext boundary
    simp only [pruneAcceptedBoundariesThrough, h.boundaries, Finset.mem_filter,
      mem_boundariesAbove]
    constructor
    · rintro ⟨⟨hmem, -⟩, hlt⟩
      exact ⟨hmem, hlt⟩
    · rintro ⟨hmem, hlt⟩
      have hlt : target < boundary := hlt
      exact ⟨⟨hmem, by omega⟩, hlt⟩
  · change m.nextSequence + 1 ≤ exhausted
    omega
  · change m.nextSequence + 1 = (m.journal ++ [_]).length + 1
    simp [hnext]

/-! ## Runs -/

/-- A call that means nothing for the ledger leaves it alone. -/
theorem step_ledger {call : Call} (h : m.record ledger call = ledger) :
    (step codec (m, ledger) call).2 = ledger := by
  unfold step
  rw [h]
  exact ite_self ledger

/-- Every call keeps the invariant. -/
theorem coherent_step {s : TransactionManager × Ledger} (h : Coherent codec s.1 s.2)
    (call : Call) : Coherent codec (step codec s call).1 (step codec s call).2 := by
  obtain ⟨m, ledger⟩ := s
  cases call with
  | begin lease => exact coherent_begin h lease
  | recordMutation lease mutation => exact coherent_recordMutation h lease mutation
  | flushPreparedRecords lease =>
    rw [step_ledger rfl]
    exact coherent_flushPreparedRecords h lease
  | accept lease preimage => exact coherent_accept h lease preimage
  | acceptForDeferredCommit lease preimage => exact coherent_acceptForDeferredCommit h lease preimage
  | abort lease => exact coherent_abort h lease
  | markApfsDurableThrough lease appendLease flushed target =>
    rw [step_ledger rfl]
    exact coherent_markApfsDurableThrough h lease appendLease flushed target
  | markCleanedThrough lease appendLease flushed target =>
    rw [step_ledger rfl]
    exact coherent_markCleanedThrough h lease appendLease flushed target

/-- Every run keeps the invariant. -/
theorem coherent_run {s : TransactionManager × Ledger} (h : Coherent codec s.1 s.2)
    (calls : List Call) : Coherent codec (run codec s calls).1 (run codec s calls).2 := by
  induction calls generalizing s with
  | nil => exact h
  | cons call calls ih => exact ih (coherent_step h call)

/-- **A restart refines the live manager.**  Take any run of the eight operations on
a manager that was opened on an empty journal.  In every state it reaches the
watermarks are ordered and the journal's sequences increase; and whenever no
transaction is open, the journal passes the semantic check, and a fresh manager
seeded from it comes up valid, with the same watermarks, the same accepted
boundaries (all of them above the cleanup watermark), the same unapplied accepted
transactions with the very records that were prepared for them, and ids no lower
than the live ones. -/
theorem restart_refines_live_manager (codec : WalCodec)
    (safetyLevel journalPath volumeIdentity : String) (hpath : journalPath ≠ "")
    (calls : List Call) :
    let live := (run codec (fresh safetyLevel journalPath volumeIdentity, {}) calls).1
    let ledger := (run codec (fresh safetyLevel journalPath volumeIdentity, {}) calls).2
    live.watermarks.cleanupSequence ≤ live.watermarks.apfsDurableSequence ∧
    live.watermarks.apfsDurableSequence ≤ live.watermarks.acceptedSequence ∧
    (live.journal.map Record.sequence).Pairwise (· < ·) ∧
    (live.state = .idle →
      validateWalSemantics codec live.journal = true ∧
      ∀ safetyLevel' journalPath' volumeIdentity' : String,
        let seeded := (fresh safetyLevel' journalPath' volumeIdentity').seedIdsFromJournalRecords
          codec live.journal
        seeded.1 = true ∧
        seeded.2.recoveryStateValid = true ∧
        seeded.2.watermarks = live.watermarks ∧
        seeded.2.acceptedBoundaries = live.acceptedBoundaries ∧
        (∀ boundary ∈ live.acceptedBoundaries, live.watermarks.cleanupSequence < boundary) ∧
        seeded.2.collectAcceptedTransactions live.journal false =
          .ok (ledger.accepted.filter fun transaction =>
            live.watermarks.apfsDurableSequence < transaction.acceptedSequence) ∧
        live.collectAcceptedTransactions live.journal false =
          .ok (ledger.accepted.filter fun transaction =>
            live.watermarks.apfsDurableSequence < transaction.acceptedSequence) ∧
        live.nextTransactionId ≤ seeded.2.nextTransactionId ∧
        live.nextSequence ≤ seeded.2.nextSequence) := by
  intro live ledger
  obtain ⟨bound, flushed, h⟩ : Coherent codec live ledger :=
    coherent_run (coherent_fresh safetyLevel volumeIdentity hpath) calls
  refine ⟨h.recorded.cleanup_le, h.recorded.durable_le, h.recorded.sequences_increasing,
    fun hidle => ?_⟩
  have hclosed := h.closed hidle
  obtain rfl := hclosed.empty
  have hnext := hclosed.next
  have hsequence := hclosed.nextSequence
  have hlimit := h.sequence_le
  have htransaction := h.transaction_le
  have hpos := h.recorded.pos
  refine ⟨h.recorded.validateWalSemantics, fun safetyLevel' journalPath' volumeIdentity' => ?_⟩
  have hseed := h.recorded.seedIdsFromJournalRecords
    (m := fresh safetyLevel' journalPath' volumeIdentity') rfl rfl
    (show 1 ≤ bound by omega) (show 1 ≤ live.journal.length + 1 by omega) (by omega) (by omega)
  rw [hseed]
  refine ⟨rfl, rfl, rfl, h.boundaries.symm, ?_, h.recorded.collectAcceptedTransactions rfl,
    h.recorded.collectAcceptedTransactions rfl, hnext.le, hsequence.le⟩
  intro boundary hboundary
  rw [h.boundaries] at hboundary
  exact (mem_boundariesAbove.mp hboundary).2

/-- A codec for which every record is consistent and no record carries an intent. -/
def plainCodec : WalCodec where
  inlinePayloadIsConsistent := fun _ => true
  nativeCloneIsConsistent := fun _ => true
  nativeHardLinkIsConsistent := fun _ => true
  nativeSparseIsConsistent := fun _ => true
  nativeCloneRangeIsConsistent := fun _ => true
  volumeQuotaReserveIsConsistent := fun _ => true
  volumeRenameIsConsistent := fun _ => true
  snapshotIntentIsConsistent := fun _ => true
  countRepairIsConsistent := fun _ => true
  compressionRewriteIsConsistent := fun _ => true
  extendedAttributeMutationIsConsistent := fun _ => true
  allocationSizeMutationIsConsistent := fun _ => true
  directoryRestoreMutationIsConsistent := fun _ => true
  inodeMetadataMutationIsConsistent := fun _ => true
  unlinkOutcomeIsConsistent := fun _ => true
  decodeNativeClone := fun _ => none
  decodeNativeHardLink := fun _ => none
  decodeNativeCloneRange := fun _ => none
  decodeNativeSparseOriginalCheckpoint := fun _ => none
  decodeNativeVolumeQuotaReserve := fun _ => none
  decodeNativeVolumeRename := fun _ => none
  decodeNativeSnapshotIntent := fun _ => none
  decodeNativeCountRepair := fun _ => none

/-- Two accepted transactions and an aborted one, of which the first accepted one is
made durable and cleaned up. -/
def sampleCalls : List Call :=
  [.begin {}, .recordMutation {} { kind := .createFile, path := "\\a" }, .accept {} 7,
    .begin {}, .recordMutation {} { kind := .write, path := "\\a", length := 4 },
    .flushPreparedRecords {}, .recordMutation {} { kind := .delete, path := "\\a" }, .abort {},
    .begin {}, .recordMutation {} { kind := .rename, path := "\\a", secondaryPath := "\\b" },
    .acceptForDeferredCommit {} 8, .markApfsDurableThrough {} {} true 2,
    .markCleanedThrough {} {} true 2]

theorem restart_refines_live_manager_sample :
    (run plainCodec (fresh "strict" "wal" "volume", {}) sampleCalls).1.state = .idle ∧
      (run plainCodec (fresh "strict" "wal" "volume", {}) sampleCalls).1.journal.length = 8 ∧
      validateWalSemantics plainCodec
        (run plainCodec (fresh "strict" "wal" "volume", {}) sampleCalls).1.journal = true := by
  have hidle : (run plainCodec (fresh "strict" "wal" "volume", {}) sampleCalls).1.state = .idle := by
    decide +kernel
  exact ⟨hidle, by decide +kernel,
    ((restart_refines_live_manager plainCodec "strict" "wal" "volume" (by decide)
      sampleCalls).2.2.2 hidle).1⟩

end TransactionManager
end Journal
end ApfsAccess
