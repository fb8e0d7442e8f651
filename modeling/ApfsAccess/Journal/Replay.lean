import ApfsAccess.Journal.TransactionManager

/-!
# Replaying a journal that grows

Three loops read the journal back: the semantic check, the seed loop and the
collection of accepted transactions.  Each is a fold over the records, so each is
determined by what it does at the end of a journal it has already read.  The
predicates below say where the three loops stand after a journal whose closed
transactions have ids below `bound`, and whose open transaction, if any, has id
`bound` and has put the records `flushed` into the journal.

* `ScanAt` : the semantic check.
* `SeedAt` : the seed loop.
* `CollectAt` : the collection, for every pair of watermarks it may be run with.

For each of them there is one lemma per kind of record that is ever appended: a
prepared record, the accepted and the aborted marker, and the two watermarks.
-/

namespace ApfsAccess
namespace Journal
namespace TransactionManager

variable (codec : WalCodec)

section Maps

variable {β : Type}

@[simp] theorem lookup_singleton (key : ℕ) (value : β) :
    AList.lookup key (AList.singleton (β := fun _ => β) key value) = some value :=
  AList.lookup_insert ∅

@[simp] theorem erase_singleton (key : ℕ) (value : β) :
    AList.erase key (AList.singleton (β := fun _ => β) key value) = ∅ :=
  AList.ext (by simp [AList.erase])

@[simp] theorem erase_empty (key : ℕ) :
    AList.erase key (∅ : AList (fun _ : ℕ => β)) = ∅ :=
  rfl

@[simp] theorem erase_insert (key : ℕ) (value : β) (map : AList (fun _ : ℕ => β)) :
    (map.insert key value).erase key = map.erase key :=
  AList.ext (by simp [AList.erase, AList.insert])

end Maps

/-! ## The three loops after a journal -/

/-- The state of the semantic check after `count` records of transaction `bound`. -/
structure ScanAt (scan : WalScan) (sequence bound count : ℕ) (intent : Option ℕ) : Prop where
  previous : scan.previousSequence = sequence
  active : scan.activeTransactionId = if count = 0 then 0 else bound
  prepared : scan.preparedCounts = if count = 0 then ∅ else AList.singleton bound count
  terminal : ∀ t ∈ scan.terminalTransactions, 0 < t ∧ t < bound
  intent : scan.cloneCheckpoints.lookup bound = intent
  intents : ∀ t ∈ scan.cloneCheckpoints, t ≤ bound

/-- The state of the seed loop after `count` records of transaction `bound`. -/
structure SeedAt (scan : SeedScan) (sequence bound count : ℕ)
    (history : List AcceptedTransaction) (watermarks : DurabilityWatermarks) : Prop where
  boundaries : scan.recoveredBoundaries =
    (history.map AcceptedTransaction.acceptedSequence).toFinset
  closed : count = 0 → scan.transactionRequiresSpoolFlush = ∅
  opened : scan.transactionRequiresSpoolFlush.erase bound = ∅
  maxTransactionId : scan.maxTransactionId + 1 = if count = 0 then bound else bound + 1
  maxSequence : scan.maxSequence = sequence
  watermarks : scan.recoveredWatermarks = watermarks
  valid : scan.recoveredStateValid = true

/-- The state of the collection above `lower` after the records `flushed` of
transaction `bound`. -/
structure CollectAt (scan : CollectScan) (sequence bound lower : ℕ) (flushed : List Record)
    (history : List AcceptedTransaction) : Prop where
  previous : scan.previousSequence = sequence
  transactions : scan.transactions =
    history.filter fun transaction => lower < transaction.acceptedSequence
  prepared : scan.preparedByTransaction =
    if flushed = [] then ∅ else AList.singleton bound flushed
  terminal : ∀ t ∈ scan.terminalTransactions, 0 < t ∧ t < bound

/-! ## Records that are appended -/

/-- A record as `RecordMutation` prepares it for transaction `bound`. -/
structure PreparedFor (record : Record) (bound : ℕ) : Prop where
  transactionId : record.transactionId = bound
  state : record.state = .prepared
  operation : isMutationOperation record.operation = true

theorem PreparedFor.ne_marker {record : Record} {bound : ℕ} (h : PreparedFor record bound) :
    record.operation ≠ .transactionMarker := by
  intro hop
  have := h.operation
  rw [hop] at this
  exact absurd this (by decide)

theorem PreparedFor.ne_watermark {record : Record} {bound : ℕ} (h : PreparedFor record bound) :
    record.operation ≠ .durabilityWatermark := by
  intro hop
  have := h.operation
  rw [hop] at this
  exact absurd this (by decide)

theorem PreparedFor.ne_compactionIndex {record : Record} {bound : ℕ}
    (h : PreparedFor record bound) : record.operation ≠ .compactionIndex := by
  intro hop
  have := h.operation
  rw [hop] at this
  exact absurd this (by decide)

/-- The sequence that comes next, as the check wants it. -/
theorem scanStep_eq_of_next {scan : WalScan} {record : Record} {sequence : ℕ}
    (hprevious : scan.previousSequence = sequence) (hnext : record.sequence = sequence + 1)
    (hbound : record.sequence < exhausted) (hop : record.operation ≠ .compactionIndex) :
    scanStep codec 0 scan record =
      match record.operation with
      | .transactionMarker =>
        scanMarker 0 { scan with previousSequence := record.sequence } record
      | .durabilityWatermark =>
        scanWatermark { scan with previousSequence := record.sequence } record
      | _ => scanMutation codec { scan with previousSequence := record.sequence } record := by
  have hsequence : ¬ (record.sequence = 0 ∨ record.sequence = exhausted ∨
      record.sequence < 0 ∨ record.sequence ≤ scan.previousSequence) := by omega
  unfold scanStep
  exact (if_neg hop).trans (if_neg hsequence)

/-! ### The semantic check -/

/-- How a prepared record moves the intent of its transaction: a record without an
intent leaves it alone, a record with one needs a transaction without. -/
def IntentStep (record : Record) (intent intent' : Option ℕ) : Prop :=
  if carriesIntent record.operation then
    intent = none ∧ ∃ checkpoint, intentCheckpoint codec record = some checkpoint ∧
      intent' = some checkpoint
  else
    intent' = intent

variable {codec} in
theorem scanIntent_of_intentStep (scan : WalScan) {record : Record} {bound : ℕ}
    {intent intent' : Option ℕ} (htransaction : record.transactionId = bound)
    (hlookup : scan.cloneCheckpoints.lookup bound = intent)
    (hle : ∀ t ∈ scan.cloneCheckpoints, t ≤ bound)
    (hstep : IntentStep codec record intent intent') :
    ∃ checkpoints, scanIntent codec scan record =
        some { scan with cloneCheckpoints := checkpoints } ∧
      checkpoints.lookup bound = intent' ∧ ∀ t ∈ checkpoints, t ≤ bound := by
  unfold IntentStep at hstep
  unfold scanIntent
  split at hstep
  · rename_i hcarries
    obtain ⟨rfl, checkpoint, hcheckpoint, rfl⟩ := hstep
    have hfresh : record.transactionId ∉ scan.cloneCheckpoints := by
      rw [htransaction]
      exact AList.lookup_eq_none.mp hlookup
    refine ⟨scan.cloneCheckpoints.insert record.transactionId checkpoint, ?_, ?_, ?_⟩
    · simp [hcarries, hcheckpoint, hfresh]
    · rw [htransaction, AList.lookup_insert]
    · intro t ht
      rcases (AList.mem_insert _).mp ht with rfl | ht
      · exact htransaction.le
      · exact hle t ht
  · rename_i hcarries
    exact ⟨scan.cloneCheckpoints, by simp [hcarries], by rw [hlookup, hstep], hle⟩

/-- The check accepts a prepared record of the open transaction. -/
theorem ScanAt.prepare {scan : WalScan} {sequence bound count : ℕ} {intent intent' : Option ℕ}
    {record : Record} (h : ScanAt scan sequence bound count intent)
    (hrecord : PreparedFor record bound) (hintent : IntentStep codec record intent intent')
    (hpos : 0 < bound) (hlt : bound < exhausted)
    (hnext : record.sequence = sequence + 1) (hbound : record.sequence < exhausted) :
    ∃ scan', scanStep codec 0 scan record = some scan' ∧
      ScanAt scan' (sequence + 1) bound (count + 1) intent' := by
  have hnotin : bound ∉ scan.terminalTransactions := fun hin => by
    have := h.terminal bound hin
    omega
  have hactive : scan.activeTransactionId = 0 ∨ scan.activeTransactionId = bound := by
    rw [h.active]
    split <;> simp
  have hguard : ¬ (!isMutationOperation record.operation ∨ record.state ≠ .prepared ∨
      record.transactionId = 0 ∨ record.transactionId = exhausted ∨
      (scan.activeTransactionId ≠ 0 ∧ scan.activeTransactionId ≠ record.transactionId) ∨
      record.transactionId ∈ scan.terminalTransactions) := by
    rw [hrecord.transactionId, hrecord.state, hrecord.operation]
    have h0 : bound ≠ 0 := by omega
    have h1 : bound ≠ exhausted := by omega
    simp only [Bool.not_true, Bool.false_eq_true, ne_eq, not_true, h0, h1, hnotin, or_false,
      false_or, not_and, not_not]
    exact fun hne => hactive.resolve_left hne
  obtain ⟨checkpoints, hscan, hlookup, hle⟩ :=
    scanIntent_of_intentStep { scan with previousSequence := record.sequence } hrecord.transactionId
      h.intent h.intents hintent
  have hstep : scanStep codec 0 scan record =
      some { scan with
        previousSequence := record.sequence
        cloneCheckpoints := checkpoints
        activeTransactionId := bound
        preparedCounts := scan.preparedCounts.insert bound
          ((scan.preparedCounts.lookup bound).getD 0 + 1) } := by
    rw [scanStep_eq_of_next codec h.previous hnext hbound hrecord.ne_compactionIndex]
    split
    · exact absurd ‹_› hrecord.ne_marker
    · exact absurd ‹_› hrecord.ne_watermark
    · unfold scanMutation
      rw [if_neg hguard, hscan, hrecord.transactionId]
  refine ⟨_, hstep, hnext, ?_, ?_, h.terminal, hlookup, hle⟩
  · simp
  · change AList.insert _ _ _ = _
    rw [h.prepared]
    by_cases hcount : count = 0
    · simp [hcount]
    · simp [hcount]

/-- A marker that closes the open transaction. -/
structure MarkerFor (record : Record) (bound sequence : ℕ) : Prop where
  transactionId : record.transactionId = bound
  operation : record.operation = .transactionMarker
  sequence : record.sequence = sequence

variable {codec} in
theorem ScanAt.close {scan : WalScan} {sequence bound count : ℕ} {intent : Option ℕ}
    {record : Record} (h : ScanAt scan sequence bound count intent)
    (hmarker : MarkerFor record bound (sequence + 1)) (hpos : 0 < bound) (hlt : bound < exhausted)
    (hbound : record.sequence < exhausted)
    (houtcome : record.state = .cleaned ∧ record.flags = walFlagAborted ∨
      ∃ committed : Bool, record.state = (if committed then .checkpointed else .accepted) ∧
        record.flags = (if committed then walFlagCommitted else walFlagAccepted) ∧
        (committed = false → count ≠ 0) ∧ record.logicalLength = count ∧
        ∀ checkpoint, intent = some checkpoint → record.objectId = checkpoint ∧ count = 1) :
    ∃ scan', scanStep codec 0 scan record = some scan' ∧
      ScanAt scan' (sequence + 1) (bound + 1) 0 none := by
  have hnotin : bound ∉ scan.terminalTransactions := fun hin => by
    have := h.terminal bound hin
    omega
  have hguard : ¬ (record.transactionId = 0 ∨ record.transactionId = exhausted ∨
      (scan.activeTransactionId ≠ 0 ∧ scan.activeTransactionId ≠ record.transactionId) ∨
      record.transactionId ∈ scan.terminalTransactions) := by
    rw [hmarker.transactionId, h.active]
    have h0 : bound ≠ 0 := by omega
    have h1 : bound ≠ exhausted := by omega
    simp only [h0, h1, hnotin, or_false, false_or, not_and, not_not]
    split <;> simp
  -- a marker that is not an abort agrees with what its transaction has prepared
  have hcomplete : ∀ committed : Bool, (committed = false → count ≠ 0) →
      record.logicalLength = count →
      (∀ checkpoint, intent = some checkpoint → record.objectId = checkpoint ∧ count = 1) →
      boundaryIsComplete 0 { scan with previousSequence := record.sequence } record
        committed = true := by
    intro committed hcount hlength hintent
    have hprepared : scan.preparedCounts.lookup bound =
        if count = 0 then none else some count := by
      rw [h.prepared]
      split
      · rfl
      · exact lookup_singleton _ _
    have hclone := h.intent
    have hid := hmarker.transactionId
    subst hid
    unfold boundaryIsComplete
    simp only [hclone, hprepared, hlength]
    by_cases hzero : count = 0
    · have hnone : intent = none := by
        cases intent with
        | none => rfl
        | some checkpoint => exact absurd (hintent checkpoint rfl).2 (by omega)
      have hcommitted : committed = true := by
        cases committed with
        | true => rfl
        | false => exact absurd hzero (hcount rfl)
      simp [hzero, hnone, hcommitted]
    · cases intent with
      | none => simp [hzero]
      | some checkpoint =>
        obtain ⟨hobject, hone⟩ := hintent checkpoint rfl
        simp [hobject, hone]
  have hstep : scanStep codec 0 scan record =
      some { scan with
        previousSequence := record.sequence
        preparedCounts := scan.preparedCounts.erase bound
        terminalTransactions := insert bound scan.terminalTransactions
        activeTransactionId :=
          if scan.activeTransactionId = bound then 0 else scan.activeTransactionId } := by
    rw [scanStep_eq_of_next codec h.previous hmarker.sequence hbound (by simp [hmarker.operation]),
      hmarker.operation]
    change scanMarker _ _ _ = _
    unfold scanMarker
    rw [if_neg hguard]
    rcases houtcome with ⟨hstate, hflags⟩ | ⟨committed, hstate, hflags, hcount, hlength, hintent⟩
    · simp [isTransactionMarkerWithState, hstate, hflags, hmarker.transactionId]
    · have hcomplete := hcomplete committed hcount hlength hintent
      have haccepted : (RecordState.accepted == RecordState.checkpointed &&
          walFlagAccepted == walFlagCommitted) = false := by decide
      have hcommitted : (RecordState.checkpointed == RecordState.accepted &&
          walFlagCommitted == walFlagAccepted) = false := by decide
      cases committed <;>
        simp [isTransactionMarkerWithState, hstate, hflags, hmarker.transactionId, haccepted,
          hcommitted, hcomplete]
  refine ⟨_, hstep, hmarker.sequence, ?_, ?_, ?_, ?_, ?_⟩
  · simp only [if_true]
    rw [h.active]
    by_cases hcount : count = 0
    · have h0 : ¬ 0 = bound := by omega
      simp [hcount, h0]
    · simp [hcount]
  · simp only [if_true]
    rw [h.prepared]
    split <;> simp
  · intro t ht
    rcases Finset.mem_insert.mp ht with rfl | ht
    · omega
    · have := h.terminal t ht
      omega
  · refine AList.lookup_eq_none.mpr fun hin => ?_
    have := h.intents _ hin
    omega
  · intro t ht
    have := h.intents t ht
    omega

variable {codec} in
/-- The check accepts a watermark between transactions. -/
theorem ScanAt.watermark {scan : WalScan} {sequence bound : ℕ}
    {record : Record} (h : ScanAt scan sequence bound 0 none)
    (hop : record.operation = .durabilityWatermark) (htransaction : record.transactionId = 0)
    (hflags : record.flags = 0) (htarget : record.logicalOffset ≠ 0)
    (hstate : record.state = .checkpointed ∨ record.state = .cleaned)
    (hnext : record.sequence = sequence + 1) (hbound : record.sequence < exhausted) :
    ∃ scan', scanStep codec 0 scan record = some scan' ∧
      ScanAt scan' (sequence + 1) bound 0 none := by
  refine ⟨{ scan with previousSequence := record.sequence }, ?_, hnext, h.active, h.prepared,
    h.terminal, h.intent, h.intents⟩
  rw [scanStep_eq_of_next codec h.previous hnext hbound (by simp [hop]), hop]
  have hactive : scan.activeTransactionId = 0 := by simpa using h.active
  have hguard : ¬ (record.transactionId ≠ 0 ∨ scan.activeTransactionId ≠ 0 ∨ record.flags ≠ 0 ∨
      record.logicalOffset = 0 ∨ (record.state ≠ .checkpointed ∧ record.state ≠ .cleaned)) := by
    simp only [htransaction, hactive, hflags, htarget, ne_eq, not_true, false_or, not_and, not_not]
    exact fun hne => hstate.resolve_left hne
  change scanWatermark _ _ = _
  unfold scanWatermark
  rw [if_neg hguard]

/-! ### The seed loop -/

/-- A prepared record only opens its transaction. -/
theorem SeedAt.prepare {scan : SeedScan} {sequence bound count : ℕ}
    {history : List AcceptedTransaction} {watermarks : DurabilityWatermarks} {record : Record}
    (h : SeedAt scan sequence bound count history watermarks)
    (hrecord : PreparedFor record bound) (hnext : record.sequence = sequence + 1) :
    SeedAt (seedStep codec scan record) (sequence + 1) bound (count + 1) history watermarks := by
  have hmax := h.maxTransactionId
  have hid := hrecord.transactionId
  subst hid
  have hstep : seedStep codec scan record = seedMutation codec
      { scan with
        maxTransactionId := max scan.maxTransactionId record.transactionId
        maxSequence := max scan.maxSequence record.sequence } record := by
    unfold seedStep
    exact if_pos ⟨hrecord.state, hrecord.operation⟩
  rw [hstep]
  refine ⟨h.boundaries, by simp, ?_, ?_, ?_, h.watermarks, h.valid⟩
  · exact (erase_insert _ _ _).trans h.opened
  · change max scan.maxTransactionId record.transactionId + 1 = _
    split at hmax <;> simp only [Nat.succ_ne_zero, if_false] <;> omega
  · change max scan.maxSequence record.sequence = _
    rw [h.maxSequence, hnext]
    omega

/-- An accepted marker adds its boundary and moves the accepted watermark. -/
theorem SeedAt.accept {scan : SeedScan} {sequence bound count : ℕ}
    {history : List AcceptedTransaction} {watermarks : DurabilityWatermarks} {record : Record}
    (h : SeedAt scan sequence bound count history watermarks)
    (hmarker : MarkerFor record bound (sequence + 1)) (hstate : record.state = .accepted)
    (haccepted : watermarks.acceptedSequence ≤ sequence)
    {transaction : AcceptedTransaction} (htransaction : transaction.acceptedSequence = sequence + 1) :
    SeedAt (seedStep codec scan record) (sequence + 1) (bound + 1) 0 (history ++ [transaction])
      { watermarks with acceptedSequence := sequence + 1 } := by
  have hmax := h.maxTransactionId
  have hid := hmarker.transactionId
  subst hid
  have hstep : seedStep codec scan record = seedMarker
      { scan with
        maxTransactionId := max scan.maxTransactionId record.transactionId
        maxSequence := max scan.maxSequence record.sequence } record := by
    unfold seedStep
    simp [hstate, hmarker.operation]
  have hclosed : scan.transactionRequiresSpoolFlush.erase record.transactionId = ∅ := h.opened
  rw [hstep]
  unfold seedMarker
  simp only [hstate, if_true]
  refine ⟨?_, fun _ => hclosed, ?_, ?_, ?_, ?_, h.valid⟩
  · ext boundary
    simp [h.boundaries, hmarker.sequence, htransaction]
  · rw [hclosed, erase_empty]
  · simp only [if_true]
    split at hmax <;> omega
  · simp only [h.maxSequence, hmarker.sequence]
    omega
  · simp only [h.watermarks, hmarker.sequence]
    congr 1
    omega

/-- An aborted marker only closes its transaction. -/
theorem SeedAt.abort {scan : SeedScan} {sequence bound count : ℕ}
    {history : List AcceptedTransaction} {watermarks : DurabilityWatermarks} {record : Record}
    (h : SeedAt scan sequence bound count history watermarks)
    (hmarker : MarkerFor record bound (sequence + 1)) (hstate : record.state = .cleaned) :
    SeedAt (seedStep codec scan record) (sequence + 1) (bound + 1) 0 history watermarks := by
  have hmax := h.maxTransactionId
  have hid := hmarker.transactionId
  subst hid
  have hstep : seedStep codec scan record = seedMarker
      { scan with
        maxTransactionId := max scan.maxTransactionId record.transactionId
        maxSequence := max scan.maxSequence record.sequence } record := by
    unfold seedStep
    simp [hstate, hmarker.operation]
  have hclosed : scan.transactionRequiresSpoolFlush.erase record.transactionId = ∅ := h.opened
  rw [hstep]
  unfold seedMarker
  simp only [hstate, reduceCtorEq, if_false, false_and]
  refine ⟨h.boundaries, fun _ => hclosed, ?_, ?_, ?_, h.watermarks, h.valid⟩
  · rw [hclosed, erase_empty]
  · simp only [if_true]
    split at hmax <;> omega
  · simp only [h.maxSequence, hmarker.sequence]
    omega

/-- A watermark record, seen by the seed loop between transactions. -/
theorem seedStep_watermark {scan : SeedScan} {sequence bound : ℕ}
    {history : List AcceptedTransaction} {watermarks : DurabilityWatermarks} {record : Record}
    (h : SeedAt scan sequence bound 0 history watermarks)
    (hop : record.operation = .durabilityWatermark) (htransaction : record.transactionId = 0)
    (hnext : record.sequence = sequence + 1)
    (hstate : record.state = .checkpointed ∨ record.state = .cleaned) :
    seedStep codec scan record = seedWatermark { scan with maxSequence := sequence + 1 } record := by
  have hmax : max scan.maxSequence record.sequence = sequence + 1 := by
    rw [h.maxSequence, hnext]
    omega
  unfold seedStep
  rcases hstate with hstate | hstate <;> simp [hstate, hop, htransaction, hmax]

/-- A durability watermark at an accepted boundary moves the durable watermark. -/
theorem SeedAt.durable {scan : SeedScan} {sequence bound : ℕ}
    {history : List AcceptedTransaction} {watermarks : DurabilityWatermarks} {record : Record}
    (h : SeedAt scan sequence bound 0 history watermarks)
    (hop : record.operation = .durabilityWatermark) (htransaction : record.transactionId = 0)
    (hnext : record.sequence = sequence + 1) (hstate : record.state = .checkpointed)
    (hlower : watermarks.apfsDurableSequence ≤ record.logicalOffset)
    (hupper : record.logicalOffset ≤ watermarks.acceptedSequence)
    (hboundary : record.logicalOffset ∈ history.map AcceptedTransaction.acceptedSequence) :
    SeedAt (seedStep codec scan record) (sequence + 1) bound 0 history
      { watermarks with apfsDurableSequence := record.logicalOffset } := by
  have hmember : record.logicalOffset ∈ scan.recoveredBoundaries := by
    rw [h.boundaries]
    exact List.mem_toFinset.mpr hboundary
  rw [seedStep_watermark codec h hop htransaction hnext (.inl hstate)]
  unfold seedWatermark
  simp only [hstate, if_true]
  refine ⟨h.boundaries, h.closed, h.opened, h.maxTransactionId, rfl, ?_, ?_⟩
  · simp only [h.watermarks]
    rw [max_eq_right hlower]
  · simp [h.valid, h.watermarks, hmember, hlower, hupper]

/-- A cleanup watermark at an accepted boundary moves the cleanup watermark. -/
theorem SeedAt.cleaned {scan : SeedScan} {sequence bound : ℕ}
    {history : List AcceptedTransaction} {watermarks : DurabilityWatermarks} {record : Record}
    (h : SeedAt scan sequence bound 0 history watermarks)
    (hop : record.operation = .durabilityWatermark) (htransaction : record.transactionId = 0)
    (hnext : record.sequence = sequence + 1) (hstate : record.state = .cleaned)
    (hlower : watermarks.cleanupSequence ≤ record.logicalOffset)
    (hupper : record.logicalOffset ≤ watermarks.apfsDurableSequence)
    (hboundary : record.logicalOffset ∈ history.map AcceptedTransaction.acceptedSequence) :
    SeedAt (seedStep codec scan record) (sequence + 1) bound 0 history
      { watermarks with cleanupSequence := record.logicalOffset } := by
  have hmember : record.logicalOffset ∈ scan.recoveredBoundaries := by
    rw [h.boundaries]
    exact List.mem_toFinset.mpr hboundary
  rw [seedStep_watermark codec h hop htransaction hnext (.inr hstate)]
  unfold seedWatermark
  simp only [hstate, reduceCtorEq, if_false, if_true]
  refine ⟨h.boundaries, h.closed, h.opened, h.maxTransactionId, rfl, ?_, ?_⟩
  · simp only [h.watermarks]
    rw [max_eq_right hlower]
  · simp [h.valid, h.watermarks, hmember, hlower, hupper]

/-! ### The collection of accepted transactions -/

/-- The collection keeps a prepared record for its transaction. -/
theorem CollectAt.prepare {scan : CollectScan} {sequence bound lower upper : ℕ} {included : Bool}
    {flushed : List Record} {history : List AcceptedTransaction} {record : Record}
    (h : CollectAt scan sequence bound lower flushed history)
    (hrecord : PreparedFor record bound) (hpos : 0 < bound)
    (hnext : record.sequence = sequence + 1) :
    ∃ scan', collectStep upper lower included scan record = .ok scan' ∧
      CollectAt scan' (sequence + 1) bound lower (flushed ++ [record]) history := by
  have hid := hrecord.transactionId
  subst hid
  have hsequence : ¬ (record.sequence = 0 ∨ record.sequence ≤ scan.previousSequence) := by
    rw [h.previous]
    omega
  have hreplayable : ¬ (record.state ≠ .prepared ∨ record.transactionId = 0 ∨
      record.transactionId ∈ scan.terminalTransactions) := by
    rintro (hstate | hzero | hin)
    · exact hstate hrecord.state
    · omega
    · have := h.terminal _ hin
      omega
  have hstep : collectStep upper lower included scan record = .ok { scan with
      previousSequence := record.sequence
      preparedByTransaction := scan.preparedByTransaction.insert record.transactionId
        ((scan.preparedByTransaction.lookup record.transactionId).getD [] ++ [record]) } := by
    unfold collectStep
    rw [if_neg hrecord.ne_compactionIndex, if_neg hsequence]
    simp only [if_neg hrecord.ne_watermark, if_neg hrecord.ne_marker, if_neg hreplayable]
  refine ⟨_, hstep, hnext, h.transactions, ?_, h.terminal⟩
  simp only [h.prepared, List.append_eq_nil_iff, List.cons_ne_nil, and_false, if_false]
  split
  · rename_i hflushed
    simp [hflushed]
  · simp

/-- The collection hands a marker with the next sequence on. -/
theorem CollectAt.marker {scan : CollectScan} {sequence bound lower upper : ℕ} {included : Bool}
    {flushed : List Record} {history : List AcceptedTransaction} {record : Record}
    (h : CollectAt scan sequence bound lower flushed history)
    (hmarker : MarkerFor record bound (sequence + 1)) :
    collectStep upper lower included scan record =
      collectMarker upper lower included { scan with previousSequence := sequence + 1 } record := by
  have hsequence : ¬ (record.sequence = 0 ∨ record.sequence ≤ scan.previousSequence) := by
    rw [h.previous, hmarker.sequence]
    omega
  unfold collectStep
  rw [if_neg (by simp [hmarker.operation]), if_neg hsequence]
  simp only [hmarker.operation, reduceCtorEq, if_false, if_true, hmarker.sequence]

/-- No marker before this one belongs to its transaction. -/
theorem CollectAt.fresh {scan : CollectScan} {sequence bound lower : ℕ} {flushed : List Record}
    {history : List AcceptedTransaction} (h : CollectAt scan sequence bound lower flushed history)
    (hpos : 0 < bound) : ¬ (bound = 0 ∨ bound ∈ scan.terminalTransactions) := by
  rintro (hzero | hin)
  · omega
  · have := h.terminal _ hin
    omega

theorem CollectAt.terminal_insert {scan : CollectScan} {sequence bound lower : ℕ}
    {flushed : List Record} {history : List AcceptedTransaction}
    (h : CollectAt scan sequence bound lower flushed history) (hpos : 0 < bound) :
    ∀ t ∈ insert bound scan.terminalTransactions, 0 < t ∧ t < bound + 1 := by
  intro t ht
  rcases Finset.mem_insert.mp ht with rfl | ht
  · omega
  · have := h.terminal t ht
    omega

theorem CollectAt.erase {scan : CollectScan} {sequence bound lower : ℕ}
    {flushed : List Record} {history : List AcceptedTransaction}
    (h : CollectAt scan sequence bound lower flushed history) :
    scan.preparedByTransaction.erase bound = ∅ := by
  rw [h.prepared]
  split <;> simp

/-- The collection takes an accepted transaction with all its records when it lies
above the watermark, and drops it otherwise. -/
theorem CollectAt.accept {scan : CollectScan} {sequence bound lower upper : ℕ} {included : Bool}
    {flushed : List Record} {history : List AcceptedTransaction} {record : Record}
    (h : CollectAt scan sequence bound lower flushed history)
    (hmarker : MarkerFor record bound (sequence + 1)) (hpos : 0 < bound)
    (hstate : record.state = .accepted) (hflushed : flushed ≠ [])
    (hlength : record.logicalLength = flushed.length) (hupper : sequence + 1 ≤ upper) :
    ∃ scan', collectStep upper lower included scan record = .ok scan' ∧
      CollectAt scan' (sequence + 1) (bound + 1) lower []
        (history ++ [⟨bound, sequence + 1, flushed, record.objectId⟩]) := by
  have hid := hmarker.transactionId
  subst hid
  have hprepared : scan.preparedByTransaction.lookup record.transactionId = some flushed := by
    rw [h.prepared, if_neg hflushed, lookup_singleton]
  rw [h.marker hmarker]
  unfold collectMarker
  simp only [if_neg (h.fresh hpos), hstate, beq_self_eq_true, Bool.true_or, Bool.not_true,
    Bool.false_eq_true, if_false, hmarker.sequence, Nat.not_lt.mpr hupper, hprepared, h.erase]
  by_cases hlower : sequence + 1 ≤ lower
  · refine ⟨_, if_pos hlower, rfl, ?_, by simp, h.terminal_insert hpos⟩
    have hnot : ¬ lower < sequence + 1 := by omega
    simp [h.transactions, hnot]
  · rw [if_neg hlower]
    have hcount : (flushed.length != record.logicalLength) = false := by simp [hlength]
    refine ⟨_, by simp [hcount]; rfl, rfl, ?_, by simp, h.terminal_insert hpos⟩
    have habove : lower < sequence + 1 := by omega
    simp [h.transactions, habove]

/-- The collection takes a committed transaction above the watermark with all its
records when it is told to, and drops it otherwise. -/
theorem CollectAt.commit {scan : CollectScan} {sequence bound lower upper : ℕ} {included : Bool}
    {flushed : List Record} {history : List AcceptedTransaction} {record : Record}
    (h : CollectAt scan sequence bound lower flushed history)
    (hmarker : MarkerFor record bound (sequence + 1)) (hpos : 0 < bound)
    (hstate : record.state = .checkpointed) (hflags : record.flags = walFlagCommitted)
    (hlength : record.logicalLength = flushed.length)
    (hupper : included = true → sequence + 1 ≤ upper) :
    ∃ scan', collectStep upper lower included scan record = .ok scan' ∧
      CollectAt scan' (sequence + 1) (bound + 1) lower []
        (if included then history ++ [⟨bound, sequence + 1, flushed, record.objectId⟩]
        else history) := by
  have hid := hmarker.transactionId
  subst hid
  have hkind : (RecordState.checkpointed == RecordState.accepted) = false := by decide
  have hflag : (walFlagCommitted &&& walFlagCommitted != 0) = true := by decide
  rw [h.marker hmarker]
  unfold collectMarker
  cases included with
  | false =>
    simp only [if_neg (h.fresh hpos), hstate, hkind, Bool.false_and, Bool.or_false,
      Bool.not_false, Bool.false_eq_true, if_false, if_true, h.erase]
    exact ⟨_, rfl, rfl, h.transactions, by simp, h.terminal_insert hpos⟩
  | true =>
    simp only [if_neg (h.fresh hpos), hstate, hkind, hflags, hflag, beq_self_eq_true,
      Bool.false_or, Bool.and_true, Bool.not_true, Bool.false_eq_true, if_false,
      if_true, hmarker.sequence, Nat.not_lt.mpr (hupper rfl), h.erase]
    by_cases hlower : sequence + 1 ≤ lower
    · refine ⟨_, if_pos hlower, rfl, ?_, by simp, h.terminal_insert hpos⟩
      have hnot : ¬ lower < sequence + 1 := by omega
      simp [h.transactions, hnot]
    · rw [if_neg hlower]
      have habove : lower < sequence + 1 := by omega
      by_cases hflushed : flushed = []
      · have hprepared : scan.preparedByTransaction.lookup record.transactionId = none := by
          rw [h.prepared, if_pos hflushed]
          rfl
        have hzero : record.logicalLength = 0 := by simp [hlength, hflushed]
        refine ⟨_, by simp [hprepared, hzero]; rfl, rfl, ?_, by simp, h.terminal_insert hpos⟩
        simp [h.transactions, habove, hflushed]
      · have hprepared : scan.preparedByTransaction.lookup record.transactionId = some flushed := by
          rw [h.prepared, if_neg hflushed, lookup_singleton]
        have hcount : (flushed.length != record.logicalLength) = false := by simp [hlength]
        refine ⟨_, by simp [hprepared, hcount]; rfl, rfl, ?_, by simp, h.terminal_insert hpos⟩
        simp [h.transactions, habove]

/-- The collection drops an aborted transaction. -/
theorem CollectAt.abort {scan : CollectScan} {sequence bound lower upper : ℕ} {included : Bool}
    {flushed : List Record} {history : List AcceptedTransaction} {record : Record}
    (h : CollectAt scan sequence bound lower flushed history)
    (hmarker : MarkerFor record bound (sequence + 1)) (hpos : 0 < bound)
    (hstate : record.state = .cleaned) :
    ∃ scan', collectStep upper lower included scan record = .ok scan' ∧
      CollectAt scan' (sequence + 1) (bound + 1) lower [] history := by
  have hid := hmarker.transactionId
  subst hid
  have hkind : (RecordState.cleaned == RecordState.accepted) = false := by decide
  have hcheckpointed : (RecordState.cleaned == RecordState.checkpointed) = false := by decide
  rw [h.marker hmarker]
  unfold collectMarker
  simp only [if_neg (h.fresh hpos), hstate, hkind, hcheckpointed, Bool.and_false,
    Bool.false_and, Bool.or_false, Bool.not_false, if_true, h.erase]
  exact ⟨_, rfl, rfl, h.transactions, by simp, h.terminal_insert hpos⟩

/-- The collection does not look at watermarks. -/
theorem CollectAt.watermark {scan : CollectScan} {sequence bound lower upper : ℕ} {included : Bool}
    {flushed : List Record} {history : List AcceptedTransaction} {record : Record}
    (h : CollectAt scan sequence bound lower flushed history)
    (hop : record.operation = .durabilityWatermark) (hnext : record.sequence = sequence + 1) :
    ∃ scan', collectStep upper lower included scan record = .ok scan' ∧
      CollectAt scan' (sequence + 1) bound lower flushed history := by
  have hsequence : ¬ (record.sequence = 0 ∨ record.sequence ≤ scan.previousSequence) := by
    rw [h.previous]
    omega
  refine ⟨{ scan with previousSequence := record.sequence }, ?_, hnext, h.transactions,
    h.prepared, h.terminal⟩
  unfold collectStep
  rw [if_neg (by simp [hop]), if_neg hsequence]
  simp [hop]

/-! ## The journal as a whole -/

/-- Everything a restart learns from a journal whose closed transactions lie below
`bound`, whose open transaction has put `flushed` into it, and whose accepted
transactions are `history`. -/
structure Recorded (journal : List Record) (bound : ℕ) (flushed : List Record)
    (intent : Option ℕ) (history : List AcceptedTransaction)
    (watermarks : DurabilityWatermarks) : Prop where
  pos : 0 < bound
  uncompacted : ∀ record ∈ journal, record.operation ≠ .compactionIndex
  sequences : journal.map Record.sequence = List.range' 1 journal.length
  scan : ∃ scan, journal.foldlM (scanStep codec 0) {} = some scan ∧
    ScanAt scan journal.length bound flushed.length intent
  seed : SeedAt (journal.foldl (seedStep codec) {}) journal.length bound flushed.length
    history watermarks
  collect : ∀ lower upper, (∀ transaction ∈ history, transaction.acceptedSequence ≤ upper) →
    ∃ scan, journal.foldlM (collectStep upper lower false) {} = .ok scan ∧
      CollectAt scan journal.length bound lower flushed history
  latest : (history.getLast?.map AcceptedTransaction.acceptedSequence).getD 0 =
    watermarks.acceptedSequence
  accepted : ∀ transaction ∈ history, 0 < transaction.acceptedSequence ∧
    transaction.acceptedSequence ≤ watermarks.acceptedSequence
  written : watermarks.acceptedSequence ≤ journal.length
  cleanup_le : watermarks.cleanupSequence ≤ watermarks.apfsDurableSequence
  durable_le : watermarks.apfsDurableSequence ≤ watermarks.acceptedSequence

variable {codec}

/-- The empty journal of a manager that has done nothing yet. -/
theorem Recorded.nil : Recorded codec [] 1 [] none [] {} where
  pos := Nat.one_pos
  uncompacted := by simp
  sequences := rfl
  scan := ⟨{}, rfl, ⟨rfl, rfl, rfl, by simp, rfl, by simp⟩⟩
  seed := ⟨rfl, fun _ => rfl, rfl, rfl, rfl, rfl, rfl⟩
  collect := fun _ _ _ => ⟨{}, rfl, ⟨rfl, rfl, rfl, by simp⟩⟩
  latest := rfl
  accepted := by simp
  written := Nat.le_refl _
  cleanup_le := Nat.le_refl _
  durable_le := Nat.le_refl _

section Append

variable {journal flushed : List Record} {bound : ℕ} {intent intent' : Option ℕ}
  {history : List AcceptedTransaction} {watermarks : DurabilityWatermarks} {record : Record}

theorem foldlM_scan_concat {scan scan' : WalScan}
    (hscan : journal.foldlM (scanStep codec 0) {} = some scan)
    (hstep : scanStep codec 0 scan record = some scan') :
    (journal ++ [record]).foldlM (scanStep codec 0) {} = some scan' := by
  rw [List.foldlM_append, hscan]
  simpa using hstep

theorem foldlM_collect_concat {lower upper : ℕ} {scan scan' : CollectScan}
    (hscan : journal.foldlM (collectStep upper lower false) {} = .ok scan)
    (hstep : collectStep upper lower false scan record = .ok scan') :
    (journal ++ [record]).foldlM (collectStep upper lower false) {} = .ok scan' := by
  rw [List.foldlM_append, hscan]
  change [record].foldlM (collectStep upper lower false) scan = _
  rw [List.foldlM_cons, hstep]
  rfl

theorem sequences_concat (h : journal.map Record.sequence = List.range' 1 journal.length)
    (hnext : record.sequence = journal.length + 1) :
    (journal ++ [record]).map Record.sequence = List.range' 1 (journal ++ [record]).length := by
  simp only [List.map_append, List.map_cons, List.map_nil, List.length_append, List.length_cons,
    List.length_nil, List.range'_concat, h, hnext]
  congr 2
  omega

theorem uncompacted_concat (h : ∀ record ∈ journal, record.operation ≠ .compactionIndex)
    (hop : record.operation ≠ .compactionIndex) :
    ∀ other ∈ journal ++ [record], other.operation ≠ .compactionIndex := by
  intro other hother
  rcases List.mem_append.mp hother with hother | hother
  · exact h other hother
  · rw [List.mem_singleton.mp hother]
    exact hop

/-- **A prepared record extends the open transaction.** -/
theorem Recorded.prepare (h : Recorded codec journal bound flushed intent history watermarks)
    (hrecord : PreparedFor record bound) (hintent : IntentStep codec record intent intent')
    (hlt : bound < exhausted) (hnext : record.sequence = journal.length + 1)
    (hbound : record.sequence < exhausted) :
    Recorded codec (journal ++ [record]) bound (flushed ++ [record]) intent' history
      watermarks where
  pos := h.pos
  uncompacted := uncompacted_concat h.uncompacted hrecord.ne_compactionIndex
  sequences := sequences_concat h.sequences hnext
  scan := by
    obtain ⟨scan, hscan, hat⟩ := h.scan
    obtain ⟨scan', hstep, hat'⟩ := hat.prepare codec hrecord hintent h.pos hlt hnext hbound
    exact ⟨scan', foldlM_scan_concat hscan hstep, by simpa using hat'⟩
  seed := by
    rw [List.foldl_append]
    simpa using h.seed.prepare codec hrecord hnext
  collect := by
    intro lower upper hupper
    obtain ⟨scan, hscan, hat⟩ := h.collect lower upper hupper
    obtain ⟨scan', hstep, hat'⟩ := hat.prepare hrecord h.pos hnext
    exact ⟨scan', foldlM_collect_concat hscan hstep, by simpa using hat'⟩
  latest := h.latest
  accepted := h.accepted
  written := by
    have := h.written
    simp only [List.length_append, List.length_cons, List.length_nil]
    omega
  cleanup_le := h.cleanup_le
  durable_le := h.durable_le

/-- **An accepted marker closes the open transaction and adds it to the history.** -/
theorem Recorded.accept (h : Recorded codec journal bound flushed intent history watermarks)
    (hmarker : MarkerFor record bound (journal.length + 1)) (hlt : bound < exhausted)
    (hbound : record.sequence < exhausted) (hstate : record.state = .accepted)
    (hflags : record.flags = walFlagAccepted) (hflushed : flushed ≠ [])
    (hlength : record.logicalLength = flushed.length)
    (hintent : ∀ checkpoint, intent = some checkpoint →
      record.objectId = checkpoint ∧ flushed.length = 1) :
    Recorded codec (journal ++ [record]) (bound + 1) [] none
      (history ++ [⟨bound, journal.length + 1, flushed, record.objectId⟩])
      { watermarks with acceptedSequence := journal.length + 1 } where
  pos := Nat.succ_pos _
  uncompacted := uncompacted_concat h.uncompacted (by simp [hmarker.operation])
  sequences := sequences_concat h.sequences hmarker.sequence
  scan := by
    obtain ⟨scan, hscan, hat⟩ := h.scan
    have hcount : flushed.length ≠ 0 := fun hzero => hflushed (List.length_eq_zero_iff.mp hzero)
    obtain ⟨scan', hstep, hat'⟩ := hat.close hmarker h.pos hlt hbound
      (.inr ⟨false, hstate, hflags, fun _ => hcount, hlength, hintent⟩)
    exact ⟨scan', foldlM_scan_concat hscan hstep, by simpa using hat'⟩
  seed := by
    rw [List.foldl_append]
    simpa using h.seed.accept codec hmarker hstate h.written rfl
  collect := by
    intro lower upper hupper
    have hhistory : ∀ transaction ∈ history, transaction.acceptedSequence ≤ upper :=
      fun transaction hmem => hupper transaction (List.mem_append_left _ hmem)
    obtain ⟨scan, hscan, hat⟩ := h.collect lower upper hhistory
    have hlast : journal.length + 1 ≤ upper :=
      hupper ⟨bound, journal.length + 1, flushed, record.objectId⟩ (by simp)
    obtain ⟨scan', hstep, hat'⟩ := hat.accept hmarker h.pos hstate hflushed hlength hlast
    exact ⟨scan', foldlM_collect_concat hscan hstep, by simpa using hat'⟩
  latest := by simp
  accepted := by
    intro transaction hmem
    rcases List.mem_append.mp hmem with hmem | hmem
    · have h1 := h.accepted transaction hmem
      have h2 := h.written
      refine ⟨h1.1, ?_⟩
      change _ ≤ journal.length + 1
      omega
    · rw [List.mem_singleton.mp hmem]
      exact ⟨Nat.succ_pos _, Nat.le_refl _⟩
  written := by simp
  cleanup_le := h.cleanup_le
  durable_le := by
    have h1 := h.durable_le
    have h2 := h.written
    change watermarks.apfsDurableSequence ≤ journal.length + 1
    omega

/-- **An aborted marker closes the open transaction and leaves no other trace.** -/
theorem Recorded.abort (h : Recorded codec journal bound flushed intent history watermarks)
    (hmarker : MarkerFor record bound (journal.length + 1)) (hlt : bound < exhausted)
    (hbound : record.sequence < exhausted) (hstate : record.state = .cleaned)
    (hflags : record.flags = walFlagAborted) :
    Recorded codec (journal ++ [record]) (bound + 1) [] none history watermarks where
  pos := Nat.succ_pos _
  uncompacted := uncompacted_concat h.uncompacted (by simp [hmarker.operation])
  sequences := sequences_concat h.sequences hmarker.sequence
  scan := by
    obtain ⟨scan, hscan, hat⟩ := h.scan
    obtain ⟨scan', hstep, hat'⟩ := hat.close hmarker h.pos hlt hbound (.inl ⟨hstate, hflags⟩)
    exact ⟨scan', foldlM_scan_concat hscan hstep, by simpa using hat'⟩
  seed := by
    rw [List.foldl_append]
    simpa using h.seed.abort codec hmarker hstate
  collect := by
    intro lower upper hupper
    obtain ⟨scan, hscan, hat⟩ := h.collect lower upper hupper
    obtain ⟨scan', hstep, hat'⟩ := hat.abort hmarker h.pos hstate
    exact ⟨scan', foldlM_collect_concat hscan hstep, by simpa using hat'⟩
  latest := h.latest
  accepted := h.accepted
  written := by
    have := h.written
    simp only [List.length_append, List.length_cons, List.length_nil]
    omega
  cleanup_le := h.cleanup_le
  durable_le := h.durable_le

/-- **A watermark record between transactions moves the watermark it names**, in
the seed loop and in memory alike. -/
theorem Recorded.watermark {watermarks' : DurabilityWatermarks}
    (h : Recorded codec journal bound [] none history watermarks)
    (hop : record.operation = .durabilityWatermark) (htransaction : record.transactionId = 0)
    (hflags : record.flags = 0) (htarget : record.logicalOffset ≠ 0)
    (hstate : record.state = .checkpointed ∨ record.state = .cleaned)
    (hnext : record.sequence = journal.length + 1) (hbound : record.sequence < exhausted)
    (hseed : SeedAt (seedStep codec (journal.foldl (seedStep codec) {}) record)
      (journal.length + 1) bound 0 history watermarks')
    (haccepted : watermarks'.acceptedSequence = watermarks.acceptedSequence)
    (hcleanup : watermarks'.cleanupSequence ≤ watermarks'.apfsDurableSequence)
    (hdurable : watermarks'.apfsDurableSequence ≤ watermarks'.acceptedSequence) :
    Recorded codec (journal ++ [record]) bound [] none history watermarks' where
  pos := h.pos
  uncompacted := uncompacted_concat h.uncompacted (by simp [hop])
  sequences := sequences_concat h.sequences hnext
  scan := by
    obtain ⟨scan, hscan, hat⟩ := h.scan
    obtain ⟨scan', hstep, hat'⟩ :=
      hat.watermark hop htransaction hflags htarget hstate hnext hbound
    exact ⟨scan', foldlM_scan_concat hscan hstep, by simpa using hat'⟩
  seed := by
    rw [List.foldl_append]
    simpa using hseed
  collect := by
    intro lower upper hupper
    obtain ⟨scan, hscan, hat⟩ := h.collect lower upper hupper
    obtain ⟨scan', hstep, hat'⟩ := hat.watermark hop hnext
    exact ⟨scan', foldlM_collect_concat hscan hstep, by simpa using hat'⟩
  latest := by rw [haccepted, h.latest]
  accepted := by
    rw [haccepted]
    exact h.accepted
  written := by
    have := h.written
    simp only [haccepted, List.length_append, List.length_cons, List.length_nil]
    omega
  cleanup_le := hcleanup
  durable_le := hdurable

/-- A batch of prepared records, none of which carries an intent. -/
theorem Recorded.prepareAll (records : List Record)
    (h : Recorded codec journal bound flushed intent history watermarks)
    (hrecords : ∀ record ∈ records, PreparedFor record bound ∧
      carriesIntent record.operation = false)
    (hlt : bound < exhausted)
    (hsequences : records.map Record.sequence = List.range' (journal.length + 1) records.length)
    (hbound : journal.length + records.length < exhausted) :
    Recorded codec (journal ++ records) bound (flushed ++ records) intent history watermarks := by
  -- the batch is appended one record at a time, so the induction moves the journal along
  induction records generalizing journal flushed with
  | nil => simpa using h
  | cons record records ih =>
    simp only [List.map_cons, List.length_cons, List.range'_succ, List.cons.injEq] at hsequences
    simp only [List.length_cons] at hbound
    have hhead := hrecords record List.mem_cons_self
    have hstep : IntentStep codec record intent intent := by
      unfold IntentStep
      rw [if_neg (by simp [hhead.2])]
    have hnext := h.prepare hhead.1 hstep hlt hsequences.1 (by omega)
    have hlength : (journal ++ [record]).length = journal.length + 1 := by simp
    have hrest := ih hnext (fun other hother => hrecords other (List.mem_cons_of_mem _ hother))
      (by rw [hlength, hsequences.2]) (by omega)
    simpa using hrest

end Append

/-! ## What a restart reads -/

section Restart

variable {journal : List Record} {bound : ℕ} {history : List AcceptedTransaction}
  {watermarks : DurabilityWatermarks}

theorem foldlM_compactionFloorStep {records : List Record} (floor : ℕ)
    (h : ∀ record ∈ records, record.operation ≠ .compactionIndex) :
    records.foldlM compactionFloorStep floor = some floor := by
  induction records with
  | nil => rfl
  | cons record records ih =>
    have hstep : compactionFloorStep floor record = some floor :=
      if_pos (h record List.mem_cons_self)
    rw [List.foldlM_cons, hstep]
    exact ih fun other hother => h other (List.mem_cons_of_mem _ hother)

/-- The journal of a manager with no open transaction passes the semantic check. -/
theorem Recorded.validateWalSemantics
    (h : Recorded codec journal bound [] none history watermarks) :
    validateWalSemantics codec journal = true := by
  obtain ⟨scan, hscan, hat⟩ := h.scan
  have hactive : scan.activeTransactionId = 0 := by simpa using hat.active
  have hprepared : scan.preparedCounts = ∅ := by simpa using hat.prepared
  unfold Journal.validateWalSemantics
  simp [foldlM_compactionFloorStep 0 h.uncompacted, hscan, hactive, hprepared]

/-- The sequences of the journal are strictly increasing. -/
theorem Recorded.sequences_increasing {flushed : List Record} {intent : Option ℕ}
    (h : Recorded codec journal bound flushed intent history watermarks) :
    (journal.map Record.sequence).Pairwise (· < ·) := by
  rw [h.sequences]
  exact List.pairwise_lt_range'

/-- The collection over the journal of a manager with no open transaction. -/
theorem Recorded.collectAcceptedTransactions
    (h : Recorded codec journal bound [] none history watermarks) {m : TransactionManager}
    (hwatermarks : m.watermarks = watermarks) :
    m.collectAcceptedTransactions journal false =
      .ok (history.filter fun transaction =>
        watermarks.apfsDurableSequence < transaction.acceptedSequence) := by
  obtain ⟨scan, hscan, hat⟩ := h.collect watermarks.apfsDurableSequence
    watermarks.acceptedSequence fun transaction hmem => (h.accepted transaction hmem).2
  unfold TransactionManager.collectAcceptedTransactions
  simp only [hwatermarks, Bool.false_eq_true, if_false, hscan, hat.transactions,
    hasUnappliedAcceptedWork]
  refine if_neg ?_
  rintro ⟨hwork, hlatest⟩
  apply hlatest
  -- there is work above the durable watermark, so the last accepted transaction is kept
  by_cases hunapplied : watermarks.apfsDurableSequence < watermarks.acceptedSequence
  · have hlast := h.latest
    rcases List.eq_nil_or_concat history with rfl | ⟨front, last, rfl⟩
    · simp only [List.getLast?_nil, Option.map_none, Option.getD_none] at hlast
      omega
    · have hlast : last.acceptedSequence = watermarks.acceptedSequence := by simpa using hlast
      simp [hlast, hunapplied]
  · simp [hunapplied] at hwork

end Restart

end TransactionManager
end Journal
end ApfsAccess
