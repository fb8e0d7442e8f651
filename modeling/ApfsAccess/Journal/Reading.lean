import ApfsAccess.Journal.Compaction
import ApfsAccess.Journal.LogState

/-!
# The three readers of a log

The semantic check, the seed loop and the collection of accepted transactions each
read the records of a log in order.  This module says where each of them stands
after a log in a given state (`ScanReads`, `SeedReads`, `CollectReads`) and proves
that each record a log may be extended by moves them along with it.

The statements are about a log that has been compacted.  The sequences have gaps,
the check runs with the compaction floor it has read, and the records a compaction
leaves behind (`compactionIndex`) stand between the others; the three readers pass
over them.
-/

namespace ApfsAccess
namespace Journal

namespace TransactionManager

variable {codec : WalCodec}

/-! ## The semantic check -/

theorem boundaryIsComplete_of_zero {floor : ℕ} {scan : WalScan} {record : Record}
    {committed : Bool} (hpos : 0 < record.sequence)
    (h : boundaryIsComplete 0 scan record committed = true) :
    boundaryIsComplete floor scan record committed = true := by
  have hzero : (record.sequence == 0) = false := by
    rw [beq_eq_false_iff_ne]
    omega
  unfold boundaryIsComplete at h ⊢
  simp only [hzero, Bool.false_or, Bool.and_eq_true, Bool.or_eq_true] at h ⊢
  exact ⟨h.1, .inr h.2⟩

theorem scanMarker_of_zero {floor : ℕ} {scan scan' : WalScan} {record : Record}
    (hpos : 0 < record.sequence) (h : scanMarker 0 scan record = some scan') :
    scanMarker floor scan record = some scan' := by
  unfold scanMarker at h ⊢
  split at h
  · cases h
  · rename_i hguard
    rw [if_neg hguard]
    simp only at h ⊢
    split at h
    · cases h
    · rename_i hknown
      rw [if_neg hknown]
      split at h
      · cases h
      · rename_i hcomplete
        rw [if_neg ?_]
        · exact h
        · simp only [Bool.and_eq_true, Bool.not_eq_true', not_and, Bool.not_eq_false] at hcomplete ⊢
          exact fun hkind => boundaryIsComplete_of_zero hpos (hcomplete hkind)

/-- A floor at or below a record only makes its check weaker, and the check only
compares the previous sequence with the record's. -/
theorem scanStep_of_floor {floor : ℕ} {scan scan' : WalScan} {record : Record}
    (hop : record.operation ≠ .compactionIndex)
    (hprevious : scan.previousSequence < record.sequence) (hfloor : floor ≤ record.sequence)
    (h : scanStep codec 0 { scan with previousSequence := record.sequence - 1 } record =
      some scan') :
    scanStep codec floor scan record = some scan' := by
  unfold scanStep at h ⊢
  rw [if_neg hop] at h ⊢
  split at h
  · cases h
  · rename_i hsequence
    rw [if_neg (by omega)]
    simp only at h ⊢
    split at h
    · exact scanMarker_of_zero (by omega) h
    · exact h
    · exact h

/-- Where the check stands after a log in state `σ`. -/
structure ScanReads (scan : WalScan) (σ : LogState) : Prop where
  previous : scan.previousSequence ≤ σ.sequence
  standing : ScanAt scan scan.previousSequence σ.bound σ.flushed.length σ.intent

theorem ScanAt.resume {scan : WalScan} {sequence bound count : ℕ} {intent : Option ℕ}
    (h : ScanAt scan sequence bound count intent) (sequence' : ℕ) :
    ScanAt { scan with previousSequence := sequence' } sequence' bound count intent :=
  ⟨rfl, h.active, h.prepared, h.terminal, h.intent, h.intents⟩

/-- **The check accepts every record a log may be extended by.** -/
theorem ScanReads.appends {scan : WalScan} {σ σ' : LogState} {record : Record} {floor : ℕ}
    (h : ScanReads scan σ) (happends : Appends codec σ record σ') (hpos : 0 < σ.bound)
    (hclosed : σ.flushed = [] → σ.intent = none) (hfloor : floor ≤ record.sequence) :
    ∃ scan', scanStep codec floor scan record = some scan' ∧ ScanReads scan' σ' := by
  have hnext := happends.next
  have hprevious := h.previous
  have hresumed := h.standing.resume (record.sequence - 1)
  have hlast : record.sequence - 1 + 1 = record.sequence := by omega
  -- the records of a log without gaps are what the lemmas below are about
  have hfound : ∃ scan', scanStep codec 0 { scan with previousSequence := record.sequence - 1 }
      record = some scan' ∧
      ScanAt scan' record.sequence σ'.bound σ'.flushed.length σ'.intent := by
    cases happends with
    | prepare next limit id prepared step =>
      obtain ⟨scan', hstep, hat⟩ := hresumed.prepare codec prepared step hpos id hlast.symm limit
      rw [hlast] at hat
      exact ⟨scan', hstep, by simpa using hat⟩
    | settle committed next limit id marker state flags nonempty length admitted =>
      have hmarker : MarkerFor record σ.bound (record.sequence - 1 + 1) :=
        ⟨marker.transactionId, marker.operation, hlast.symm⟩
      obtain ⟨scan', hstep, hat⟩ := hresumed.close hmarker hpos id limit
        (.inr ⟨committed, state, flags, fun hfalse hzero =>
          nonempty hfalse (List.length_eq_zero_iff.mp hzero), length, admitted⟩)
      rw [hlast] at hat
      exact ⟨scan', hstep, hat⟩
    | abort next limit id marker state flags =>
      have hmarker : MarkerFor record σ.bound (record.sequence - 1 + 1) :=
        ⟨marker.transactionId, marker.operation, hlast.symm⟩
      obtain ⟨scan', hstep, hat⟩ := hresumed.close hmarker hpos id limit
        (.inl ⟨state, flags⟩)
      rw [hlast] at hat
      exact ⟨scan', hstep, hat⟩
    | mark cleaned next limit closed operation id flags positive state =>
      have hintent := hclosed closed
      rw [closed, hintent] at hresumed
      obtain ⟨scan', hstep, hat⟩ := hresumed.watermark operation id flags
        positive (by cases cleaned <;> simp [state]) hlast.symm limit
      rw [hlast] at hat
      refine ⟨scan', hstep, ?_⟩
      change ScanAt scan' record.sequence σ.bound σ.flushed.length σ.intent
      rw [closed, hintent]
      exact hat
  obtain ⟨scan', hstep, hat⟩ := hfound
  have hread := scanStep_of_floor happends.ne_compactionIndex
    (show scan.previousSequence < record.sequence by omega) hfloor hstep
  refine ⟨scan', hread, ?_, ?_⟩
  · rw [hat.previous, happends.sequence_eq]
  · rw [hat.previous]
    exact hat

theorem ScanReads.path {scan : WalScan} {σ σ' : LogState} {records : List Record} {floor : ℕ}
    (h : ScanReads scan σ) (hpath : Path codec σ records σ') (hσ : σ.Sound)
    (hfloor : ∀ record ∈ records, floor ≤ record.sequence) :
    ∃ scan', records.foldlM (scanStep codec floor) scan = some scan' ∧ ScanReads scan' σ' := by
  induction hpath generalizing scan with
  | nil σ => exact ⟨scan, rfl, h⟩
  | cons head tail ih =>
    obtain ⟨scan₁, hstep, hreads⟩ :=
      h.appends head hσ.pos hσ.closed (hfloor _ List.mem_cons_self)
    obtain ⟨scan₂, hfold, hreads₂⟩ := ih hreads (head.sound hσ)
      fun record hrecord => hfloor record (List.mem_cons_of_mem _ hrecord)
    refine ⟨scan₂, ?_, hreads₂⟩
    rw [List.foldlM_cons, hstep]
    exact hfold

/-! ## The seed loop -/

/-- Where the seed loop stands after a log in state `σ`, the two maxima apart. -/
structure SeedReads (scan : SeedScan) (σ : LogState) : Prop where
  boundaries : scan.recoveredBoundaries = σ.boundaries.toFinset
  closed : σ.flushed = [] → scan.transactionRequiresSpoolFlush = ∅
  opened : scan.transactionRequiresSpoolFlush.erase σ.bound = ∅
  watermarks : scan.recoveredWatermarks = σ.watermarks
  highest : scan.highestCheckpointedMarker = σ.highest
  valid : scan.recoveredStateValid = true

/-- A marker, seen by the seed loop. -/
theorem seedStep_marker {scan : SeedScan} {record : Record} {bound sequence : ℕ}
    (hmarker : MarkerFor record bound sequence) :
    seedStep codec scan record = seedMarker { scan with
      maxTransactionId := max scan.maxTransactionId record.transactionId
      maxSequence := max scan.maxSequence record.sequence } record := by
  unfold seedStep
  simp [hmarker.operation, isMutationOperation]

theorem SeedReads.settle {scan : SeedScan} {σ : LogState} {record : Record} {committed : Bool}
    (h : SeedReads scan σ) (hσ : σ.Sound) (hnext : σ.sequence < record.sequence)
    (hmarker : MarkerFor record σ.bound record.sequence)
    (hstate : record.state = if committed then .checkpointed else .accepted)
    (hflags : record.flags = if committed then walFlagCommitted else walFlagAccepted) :
    SeedReads (seedStep codec scan record) (σ.settle committed record) := by
  have haccepted := hσ.accepted_le
  have hdurable := hσ.durable_le
  have hhighest := hσ.highest_le
  have hopened : scan.transactionRequiresSpoolFlush.erase record.transactionId = ∅ := by
    rw [hmarker.transactionId]
    exact h.opened
  have hboundaries : insert record.sequence scan.recoveredBoundaries =
      (σ.settle committed record).boundaries.toFinset := by
    ext sequence
    simp [h.boundaries, LogState.boundaries, LogState.settle, Boundary.sequence]
  have hmax : max σ.watermarks.acceptedSequence record.sequence = record.sequence := by omega
  have hmaxDurable : max σ.watermarks.apfsDurableSequence record.sequence =
      record.sequence := by omega
  have hmaxHighest : max σ.highest record.sequence = record.sequence := by omega
  have hflag : walFlagCommitted &&& walFlagCommitted ≠ 0 := by decide
  rw [seedStep_marker hmarker]
  unfold seedMarker
  cases committed with
  | false =>
    simp only [hstate, Bool.false_eq_true, if_false, if_true]
    refine ⟨hboundaries, fun _ => hopened, ?_, ?_, h.highest, h.valid⟩
    · rw [hopened, erase_empty]
    · simp only [h.watermarks, hmax]
      rfl
  | true =>
    simp only [hstate, hflags, if_true, reduceCtorEq, if_false, true_and, if_pos hflag]
    refine ⟨hboundaries, fun _ => hopened, ?_, ?_, ?_, h.valid⟩
    · rw [hopened, erase_empty]
    · simp only [h.watermarks, hmax, hmaxDurable]
      rfl
    · simp only [h.highest, hmaxHighest]
      rfl

theorem SeedReads.mark {scan : SeedScan} {σ : LogState} {record : Record} {cleaned : Bool}
    (h : SeedReads scan σ) (hoperation : record.operation = .durabilityWatermark)
    (hstate : record.state = if cleaned then .cleaned else .checkpointed)
    (hboundary : record.logicalOffset ∈ σ.boundaries)
    (hlower : (if cleaned then σ.watermarks.cleanupSequence
      else σ.watermarks.apfsDurableSequence) ≤ record.logicalOffset)
    (hupper : record.logicalOffset ≤ if cleaned then σ.watermarks.apfsDurableSequence
      else σ.watermarks.acceptedSequence) :
    SeedReads (seedStep codec scan record) (σ.mark cleaned record) := by
  have hmember : record.logicalOffset ∈ scan.recoveredBoundaries := by
    rw [h.boundaries]
    exact List.mem_toFinset.mpr hboundary
  have hstep : seedStep codec scan record = seedWatermark { scan with
      maxTransactionId := max scan.maxTransactionId record.transactionId
      maxSequence := max scan.maxSequence record.sequence } record := by
    unfold seedStep
    simp [hoperation, isMutationOperation]
  rw [hstep]
  unfold seedWatermark
  cases cleaned with
  | false =>
    simp only [Bool.false_eq_true, if_false] at hstate hlower hupper
    simp only [hstate, if_true]
    refine ⟨h.boundaries, h.closed, h.opened, ?_, h.highest, ?_⟩
    · simp only [h.watermarks, max_eq_right hlower]
      rfl
    · simp [h.valid, h.watermarks, hmember, hlower, hupper]
  | true =>
    simp only [if_true] at hstate hlower hupper
    simp only [hstate, reduceCtorEq, if_false, if_true]
    refine ⟨h.boundaries, h.closed, h.opened, ?_, h.highest, ?_⟩
    · simp only [h.watermarks, max_eq_right hlower]
      rfl
    · simp [h.valid, h.watermarks, hmember, hlower, hupper]

/-- **The seed loop follows every record a log may be extended by.** -/
theorem SeedReads.appends {scan : SeedScan} {σ σ' : LogState} {record : Record}
    (h : SeedReads scan σ) (happends : Appends codec σ record σ') (hσ : σ.Sound) :
    SeedReads (seedStep codec scan record) σ' := by
  cases happends with
  | prepare next limit id prepared step =>
    have hstep : seedStep codec scan record = seedMutation codec { scan with
        maxTransactionId := max scan.maxTransactionId record.transactionId
        maxSequence := max scan.maxSequence record.sequence } record := by
      unfold seedStep
      exact if_pos ⟨prepared.state, prepared.operation⟩
    rw [hstep]
    refine ⟨h.boundaries, by simp, ?_, h.watermarks, h.highest, h.valid⟩
    change (AList.insert _ _ _).erase σ.bound = ∅
    rw [prepared.transactionId, erase_insert]
    exact h.opened
  | settle committed next limit id marker state flags =>
    exact h.settle hσ next marker state flags
  | abort next limit id marker state flags =>
    have hopened : scan.transactionRequiresSpoolFlush.erase record.transactionId = ∅ := by
      rw [marker.transactionId]
      exact h.opened
    rw [seedStep_marker marker]
    unfold seedMarker
    simp only [state, reduceCtorEq, if_false, false_and]
    refine ⟨h.boundaries, fun _ => hopened, ?_, h.watermarks, h.highest, h.valid⟩
    rw [hopened, erase_empty]
  | mark cleaned next limit closed operation id flags positive state boundary lower upper =>
    exact h.mark operation state boundary lower upper

/-- The seed loop passes over a compaction index. -/
theorem SeedReads.index {scan : SeedScan} {σ : LogState} {record : Record}
    (h : SeedReads scan σ) (hop : record.operation = .compactionIndex) :
    SeedReads (seedStep codec scan record) σ := by
  have hstep : seedStep codec scan record = { scan with
      maxTransactionId := max scan.maxTransactionId record.transactionId
      maxSequence := max scan.maxSequence record.sequence } := by
    unfold seedStep
    simp [hop, isMutationOperation]
  rw [hstep]
  exact ⟨h.boundaries, h.closed, h.opened, h.watermarks, h.highest, h.valid⟩

/-! ### The maxima -/

theorem seedStep_max (scan : SeedScan) (record : Record) :
    (seedStep codec scan record).maxTransactionId =
        max scan.maxTransactionId record.transactionId ∧
      (seedStep codec scan record).maxSequence = max scan.maxSequence record.sequence := by
  unfold seedStep seedMutation seedMarker seedWatermark
  simp only
  split_ifs <;> exact ⟨rfl, rfl⟩

theorem le_seed_max (journal : List Record) (scan : SeedScan) :
    (scan.maxTransactionId ≤ (journal.foldl (seedStep codec) scan).maxTransactionId ∧
        scan.maxSequence ≤ (journal.foldl (seedStep codec) scan).maxSequence) ∧
      ∀ record ∈ journal,
        record.transactionId ≤ (journal.foldl (seedStep codec) scan).maxTransactionId ∧
        record.sequence ≤ (journal.foldl (seedStep codec) scan).maxSequence := by
  induction journal generalizing scan with
  | nil => exact ⟨⟨Nat.le_refl _, Nat.le_refl _⟩, by simp⟩
  | cons first journal ih =>
    obtain ⟨⟨hid, hsequence⟩, hmem⟩ := ih (seedStep codec scan first)
    rw [(seedStep_max scan first).1] at hid
    rw [(seedStep_max scan first).2] at hsequence
    rw [List.foldl_cons]
    refine ⟨⟨by omega, by omega⟩, fun record hrecord => ?_⟩
    rcases List.mem_cons.mp hrecord with rfl | hrest
    · exact ⟨by omega, by omega⟩
    · exact hmem record hrest

theorem seed_max_le {journal : List Record} {scan : SeedScan} {id sequence : ℕ}
    (hid : scan.maxTransactionId ≤ id) (hsequence : scan.maxSequence ≤ sequence)
    (hjournal : ∀ record ∈ journal, record.transactionId ≤ id ∧ record.sequence ≤ sequence) :
    (journal.foldl (seedStep codec) scan).maxTransactionId ≤ id ∧
      (journal.foldl (seedStep codec) scan).maxSequence ≤ sequence := by
  induction journal generalizing scan with
  | nil => exact ⟨hid, hsequence⟩
  | cons first journal ih =>
    have hfirst := hjournal first List.mem_cons_self
    rw [List.foldl_cons]
    refine ih ?_ ?_ fun record hrecord => hjournal record (List.mem_cons_of_mem _ hrecord)
    · rw [(seedStep_max scan first).1]
      omega
    · rw [(seedStep_max scan first).2]
      omega

/-! ## The collection of accepted transactions -/

/-- The transactions of the history that a collection looks at. -/
def collected (σ : LogState) (included : Bool) : List AcceptedTransaction :=
  (σ.history.filter fun boundary => included || !boundary.committed).map Boundary.transaction

/-- Where the collection above `lower` stands after a log in state `σ`. -/
structure CollectReads (scan : CollectScan) (σ : LogState) (lower : ℕ) (included : Bool) :
    Prop where
  previous : scan.previousSequence ≤ σ.sequence
  standing : CollectAt scan scan.previousSequence σ.bound lower σ.flushed (collected σ included)

theorem CollectAt.resume {scan : CollectScan} {sequence bound lower : ℕ} {flushed : List Record}
    {history : List AcceptedTransaction} (h : CollectAt scan sequence bound lower flushed history)
    (sequence' : ℕ) :
    CollectAt { scan with previousSequence := sequence' } sequence' bound lower flushed history :=
  ⟨rfl, h.transactions, h.prepared, h.terminal⟩

/-- The collection only compares the previous sequence with the record's. -/
theorem collectStep_resume {scan : CollectScan} {record : Record} {lower upper : ℕ}
    {included : Bool} (hop : record.operation ≠ .compactionIndex)
    (hprevious : scan.previousSequence < record.sequence) :
    collectStep upper lower included scan record =
      collectStep upper lower included
        { scan with previousSequence := record.sequence - 1 } record := by
  have hsequence : ¬ (record.sequence = 0 ∨ record.sequence ≤ scan.previousSequence) := by omega
  have hresumed : ¬ (record.sequence = 0 ∨ record.sequence ≤ record.sequence - 1) := by omega
  unfold collectStep
  rw [if_neg hop, if_neg hop, if_neg hsequence, if_neg hresumed]

theorem collected_settle_accepted (σ : LogState) (record : Record) (included : Bool) :
    collected (σ.settle false record) included = collected σ included ++
      [⟨σ.bound, record.sequence, σ.flushed, record.objectId⟩] := by
  simp [collected, LogState.settle]

theorem collected_settle_committed (σ : LogState) (record : Record) (included : Bool) :
    collected (σ.settle true record) included =
      if included then collected σ included ++
        [⟨σ.bound, record.sequence, σ.flushed, record.objectId⟩]
      else collected σ included := by
  cases included <;> simp [collected, LogState.settle]

/-- **The collection follows every record a log may be extended by**, as long as no
boundary it looks at lies above `upper`. -/
theorem CollectReads.appends {scan : CollectScan} {σ σ' : LogState} {record : Record}
    {lower upper : ℕ} {included : Bool} (h : CollectReads scan σ lower included)
    (happends : Appends codec σ record σ') (hpos : 0 < σ.bound)
    (hupper : ∀ transaction ∈ collected σ' included, transaction.acceptedSequence ≤ upper) :
    ∃ scan', collectStep upper lower included scan record = .ok scan' ∧
      CollectReads scan' σ' lower included := by
  have hnext := happends.next
  have hprevious := h.previous
  have hresumed := h.standing.resume (record.sequence - 1)
  have hlast : record.sequence - 1 + 1 = record.sequence := by omega
  have hfound : ∃ scan', collectStep upper lower included
      { scan with previousSequence := record.sequence - 1 } record = .ok scan' ∧
      CollectAt scan' record.sequence σ'.bound lower σ'.flushed (collected σ' included) := by
    cases happends with
    | prepare next limit id prepared step =>
      obtain ⟨scan', hstep, hat⟩ := hresumed.prepare prepared hpos hlast.symm
      rw [hlast] at hat
      exact ⟨scan', hstep, hat⟩
    | settle committed next limit id marker state flags nonempty length admitted =>
      have hmarker : MarkerFor record σ.bound (record.sequence - 1 + 1) :=
        ⟨marker.transactionId, marker.operation, hlast.symm⟩
      cases committed with
      | false =>
        rw [collected_settle_accepted] at hupper ⊢
        have hbelow : record.sequence ≤ upper :=
          hupper ⟨σ.bound, record.sequence, σ.flushed, record.objectId⟩ (by simp)
        obtain ⟨scan', hstep, hat⟩ := hresumed.accept hmarker hpos state (nonempty rfl) length
          (hlast.le.trans hbelow)
        rw [hlast] at hat
        exact ⟨scan', hstep, hat⟩
      | true =>
        rw [collected_settle_committed] at hupper ⊢
        have hbelow : included = true → record.sequence ≤ upper := by
          rintro rfl
          exact hupper ⟨σ.bound, record.sequence, σ.flushed, record.objectId⟩ (by simp)
        obtain ⟨scan', hstep, hat⟩ := hresumed.commit hmarker hpos state flags length
          fun hincluded => hlast.le.trans (hbelow hincluded)
        rw [hlast] at hat
        exact ⟨scan', hstep, hat⟩
    | abort next limit id marker state flags =>
      have hmarker : MarkerFor record σ.bound (record.sequence - 1 + 1) :=
        ⟨marker.transactionId, marker.operation, hlast.symm⟩
      obtain ⟨scan', hstep, hat⟩ := hresumed.abort hmarker hpos state
      rw [hlast] at hat
      exact ⟨scan', hstep, hat⟩
    | mark cleaned next limit closed operation =>
      obtain ⟨scan', hstep, hat⟩ := hresumed.watermark operation hlast.symm
      rw [hlast] at hat
      exact ⟨scan', hstep, hat⟩
  obtain ⟨scan', hstep, hat⟩ := hfound
  refine ⟨scan', ?_, ?_, ?_⟩
  · rw [collectStep_resume happends.ne_compactionIndex (by omega)]
    exact hstep
  · rw [hat.previous, happends.sequence_eq]
  · rw [hat.previous]
    exact hat

theorem mem_collected {σ : LogState} {included : Bool} {transaction : AcceptedTransaction} :
    transaction ∈ collected σ included ↔ ∃ boundary ∈ σ.history,
      (included = true ∨ boundary.committed = false) ∧ boundary.transaction = transaction := by
  simp [collected, and_assoc]

theorem CollectReads.path {scan : CollectScan} {σ σ' : LogState} {records : List Record}
    {lower upper : ℕ} {included : Bool} (h : CollectReads scan σ lower included)
    (hpath : Path codec σ records σ') (hσ : σ.Sound)
    (hupper : ∀ transaction ∈ collected σ' included, transaction.acceptedSequence ≤ upper) :
    ∃ scan', records.foldlM (collectStep upper lower included) scan = .ok scan' ∧
      CollectReads scan' σ' lower included := by
  induction hpath generalizing scan with
  | nil σ => exact ⟨scan, rfl, h⟩
  | cons head tail ih =>
    obtain ⟨scan₁, hstep, hreads⟩ := h.appends head hσ.pos fun transaction htransaction => by
      obtain ⟨boundary, hmem, hkind, rfl⟩ := mem_collected.mp htransaction
      exact hupper _ (mem_collected.mpr ⟨boundary, tail.history boundary hmem, hkind, rfl⟩)
    obtain ⟨scan₂, hfold, hreads₂⟩ := ih hreads (head.sound hσ) hupper
    refine ⟨scan₂, ?_, hreads₂⟩
    rw [List.foldlM_cons, hstep]
    exact hfold

end TransactionManager
end Journal
end ApfsAccess
