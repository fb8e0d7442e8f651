import ApfsAccess.Journal.Reading

/-!
# Reading a compacted log

`Kept` ties a journal that has been compacted down to `floor` to the log as it would
be had nothing ever been dropped: the journal holds the records of the log from
`floor` on, with compaction indices between them, none of which lies above `floor`.

What is kept may begin in one of two ways.  Either no transaction is open at the
floor, and the journal reads as a log of its own; or the floor lies on the marker of
a transaction that has been cleaned up, whose records are gone.  The check lets such
a marker pass because it lies on the floor, and the collection because it is below
the cleanup watermark.

Under `Kept` the three readers end where they would end on the whole log, cut at the
floor.
-/

namespace ApfsAccess
namespace Journal

/-- The records of a journal that are not compaction indices. -/
def plainRecords (journal : List Record) : List Record :=
  journal.filter fun record => record.operation ≠ .compactionIndex

/-- The records of the log that a compaction to `floor` keeps. -/
def recordsFrom (floor : ℕ) (log : List Record) : List Record :=
  log.filter fun record => floor ≤ record.sequence

/-- The records of the log that a compaction to `floor` drops. -/
def recordsBelow (floor : ℕ) (log : List Record) : List Record :=
  log.filter fun record => record.sequence < floor

variable (codec : WalCodec)

/-- How the kept part of a log begins: `σ₀` is the state below the floor. -/
inductive Begins (floor : ℕ) (σ₀ : LogState) : List Record → LogState → Prop
  | closed {records : List Record} {σ : LogState} (empty : σ₀.flushed = [])
      (path : Path codec σ₀ records σ) : Begins floor σ₀ records σ
  | onMarker {marker : Record} {committed : Bool} {records : List Record} {σ : LogState}
      (boundary : TransactionManager.MarkerFor marker σ₀.bound floor)
      (state : marker.state = if committed then .checkpointed else .accepted)
      (flags : marker.flags = if committed then walFlagCommitted else walFlagAccepted)
      (head : Appends codec σ₀ marker (σ₀.settle committed marker))
      (tail : Path codec (σ₀.settle committed marker) records σ)
      (cleaned : floor ≤ σ.watermarks.cleanupSequence) :
      Begins floor σ₀ (marker :: records) σ

/-- The journal holds what is left of the log after compactions down to `floor`. -/
structure Kept (journal log : List Record) (floor : ℕ) (σ : LogState) : Prop where
  path : Path codec {} log σ
  plain : plainRecords journal = recordsFrom floor log
  indices : ∀ record ∈ journal, record.operation = .compactionIndex →
    record.transactionId = 0 ∧ 0 < record.sequence ∧ record.sequence ≤ floor ∧
      record.state = .cleaned ∧ record.flags = 0
  indexed : floor = 0 ∨
    ∃ record ∈ journal, record.operation = .compactionIndex ∧ record.sequence = floor
  limit : floor < exhausted
  begins : ∃ σ₀, Path codec {} (recordsBelow floor log) σ₀ ∧
    Begins codec floor σ₀ (recordsFrom floor log) σ
  targets : ∀ record ∈ recordsFrom floor log, record.operation = .durabilityWatermark →
    floor ≤ record.logicalOffset
  dropped : ∀ sequence ∈ σ.boundaries, sequence < floor →
    sequence ≤ σ.watermarks.cleanupSequence

variable {codec}

theorem mem_recordsFrom {floor : ℕ} {log : List Record} {record : Record} :
    record ∈ recordsFrom floor log ↔ record ∈ log ∧ floor ≤ record.sequence := by
  simp [recordsFrom]

theorem mem_recordsBelow {floor : ℕ} {log : List Record} {record : Record} :
    record ∈ recordsBelow floor log ↔ record ∈ log ∧ record.sequence < floor := by
  simp [recordsBelow]

theorem mem_plainRecords {journal : List Record} {record : Record} :
    record ∈ plainRecords journal ↔ record ∈ journal ∧ record.operation ≠ .compactionIndex := by
  simp [plainRecords]

theorem plainRecords_cons_index {journal : List Record} {record : Record}
    (h : record.operation = .compactionIndex) :
    plainRecords (record :: journal) = plainRecords journal := by
  simp [plainRecords, h]

theorem plainRecords_cons {journal : List Record} {record : Record}
    (h : record.operation ≠ .compactionIndex) :
    plainRecords (record :: journal) = record :: plainRecords journal := by
  simp [plainRecords, h]

/-! ## The state below the floor -/

section Below

variable {floor : ℕ} {log : List Record} {σ₀ σ : LogState} {records : List Record}

theorem Begins.path (h : Begins codec floor σ₀ records σ) : Path codec σ₀ records σ := by
  cases h with
  | closed _ path => exact path
  | onMarker _ _ _ head tail _ => exact .cons head tail

/-- A reader that starts at the floor knows nothing of the state below it. -/
theorem cut_eq_blank (h : Path codec {} (recordsBelow floor log) σ₀) :
    σ₀.cut floor = { σ₀ with history := [], watermarks := {}, highest := 0 } := by
  rcases List.eq_nil_or_concat (recordsBelow floor log) with hnil | ⟨front, last, hfront⟩
  · rw [hnil] at h
    cases h
    simp [LogState.cut, dropBelow]
  · refine (h.sound LogState.sound_initial).cut_eq ?_
    have hlast : last ∈ recordsBelow floor log := by simp [hfront]
    rw [hfront, List.concat_eq_append] at h
    obtain ⟨σ₁, -, happends⟩ := h.concat_inv
    rw [happends.sequence_eq]
    exact (mem_recordsBelow.mp hlast).2

end Below

open TransactionManager

/-! ## The semantic check -/

theorem foldlM_scan_plainRecords (journal : List Record) (floor : ℕ) (scan : WalScan) :
    journal.foldlM (scanStep codec floor) scan =
      (plainRecords journal).foldlM (scanStep codec floor) scan := by
  induction journal generalizing scan with
  | nil => rfl
  | cons record journal ih =>
    by_cases hop : record.operation = .compactionIndex
    · have hskip : scanStep codec floor scan record = some scan := if_pos hop
      rw [plainRecords_cons_index hop, List.foldlM_cons, hskip]
      exact ih scan
    · rw [plainRecords_cons hop, List.foldlM_cons, List.foldlM_cons]
      cases scanStep codec floor scan record with
      | none => rfl
      | some scan' => exact ih scan'

/-- The check lets the marker on the floor pass, whatever its transaction prepared. -/
theorem scanStep_onMarker {marker : Record} {committed : Bool} {bound floor : ℕ}
    (hmarker : MarkerFor marker bound floor) (hpos : 0 < bound) (hid : bound < exhausted)
    (hfloor : 0 < floor) (hlimit : floor < exhausted)
    (hstate : marker.state = if committed then .checkpointed else .accepted)
    (hflags : marker.flags = if committed then walFlagCommitted else walFlagAccepted) :
    ∃ scan, scanStep codec floor {} marker = some scan ∧
      ScanAt scan floor (bound + 1) 0 none := by
  have hsequence : ¬ (marker.sequence = 0 ∨ marker.sequence = exhausted ∨
      marker.sequence < floor ∨ marker.sequence ≤ ({} : WalScan).previousSequence) := by
    rw [hmarker.sequence]
    change ¬ (floor = 0 ∨ floor = exhausted ∨ floor < floor ∨ floor ≤ 0)
    omega
  have hguard : ¬ (marker.transactionId = 0 ∨ marker.transactionId = exhausted ∨
      ((0 : ℕ) ≠ 0 ∧ (0 : ℕ) ≠ marker.transactionId) ∨
      marker.transactionId ∈ (∅ : Finset ℕ)) := by
    rw [hmarker.transactionId]
    simp only [ne_eq, not_true, false_and, Finset.notMem_empty, or_false]
    omega
  have haccepted : (RecordState.accepted == RecordState.checkpointed &&
      walFlagAccepted == walFlagCommitted) = false := by decide
  have hcommitted : (RecordState.checkpointed == RecordState.accepted &&
      walFlagCommitted == walFlagAccepted) = false := by decide
  have hcomplete : ∀ committed, boundaryIsComplete floor
      { previousSequence := floor } marker committed = true := by
    intro committed
    simp [boundaryIsComplete, hmarker.sequence]
  have hstep : scanStep codec floor {} marker = some
      { previousSequence := floor
        terminalTransactions := {bound} } := by
    unfold scanStep
    rw [if_neg (by simp [hmarker.operation]), if_neg hsequence, hmarker.operation]
    change scanMarker floor { previousSequence := marker.sequence } marker = _
    unfold scanMarker
    rw [if_neg hguard]
    cases committed <;>
      simp [isTransactionMarkerWithState, hstate, hflags, haccepted, hcommitted, hcomplete,
        hmarker.sequence, hmarker.transactionId]
  refine ⟨_, hstep, rfl, rfl, rfl, ?_, rfl, by simp⟩
  intro t ht
  rw [Finset.mem_singleton.mp ht]
  omega

section Readers

variable {journal log : List Record} {floor : ℕ} {σ : LogState}

theorem scanReads_blank {σ₀ : LogState} (hempty : σ₀.flushed = []) (hσ : σ₀.Sound) :
    ScanReads {} { σ₀ with history := [], watermarks := {}, highest := 0 } := by
  refine ⟨Nat.zero_le _, rfl, ?_, ?_, by simp, ?_, by simp⟩
  · simp [hempty]
  · simp [hempty]
  · exact (hσ.closed hempty).symm

/-- **The check reads a compacted journal to the end.** -/
theorem Kept.scan (h : Kept codec journal log floor σ) :
    ∃ scan, journal.foldlM (scanStep codec floor) {} = some scan ∧
      ScanReads scan (σ.cut floor) := by
  have hfloor : ∀ record ∈ recordsFrom floor log, floor ≤ record.sequence :=
    fun record hrecord => (mem_recordsFrom.mp hrecord).2
  have htargets := h.targets
  rw [foldlM_scan_plainRecords, h.plain]
  obtain ⟨σ₀, hbelow, hbegins⟩ := h.begins
  have hblank := cut_eq_blank hbelow
  have hσ₀ := hbelow.sound LogState.sound_initial
  generalize recordsFrom floor log = records at hfloor htargets hbegins
  cases hbegins with
  | closed empty path =>
    have hstart : ScanReads {} (σ₀.cut floor) := by
      rw [hblank]
      exact scanReads_blank empty hσ₀
    exact hstart.path (path.cut hfloor htargets) hσ₀.cut hfloor
  | @onMarker marker committed records σ boundary state flags head tail cleaned =>
    have hsequence := boundary.sequence
    have hnext := head.next
    have hlimit := head.limit
    have hid := (head.takes hσ₀.pos).2
    rw [boundary.transactionId] at hid
    obtain ⟨scan₁, hstep, hat⟩ := scanStep_onMarker boundary hσ₀.pos hid (by omega) (by omega)
      state flags
    have hreads : ScanReads scan₁ ((σ₀.settle committed marker).cut floor) := by
      refine ⟨?_, ?_⟩
      · rw [hat.previous]
        exact hsequence.ge
      · rw [hat.previous]
        exact hat
    obtain ⟨scan, hfold, hend⟩ := hreads.path
      (tail.cut (fun record hrecord => hfloor record (List.mem_cons_of_mem _ hrecord))
        fun record hrecord => htargets record (List.mem_cons_of_mem _ hrecord))
      (head.sound hσ₀).cut fun record hrecord => hfloor record (List.mem_cons_of_mem _ hrecord)
    refine ⟨scan, ?_, hend⟩
    rw [List.foldlM_cons, hstep]
    exact hfold

/-- The first pass of the check reads the floor off the compaction indices. -/
theorem foldlM_compactionFloor {journal : List Record} {floor : ℕ} (start : ℕ)
    (hindices : ∀ record ∈ journal, record.operation = .compactionIndex →
      record.transactionId = 0 ∧ 0 < record.sequence ∧ record.sequence ≤ floor ∧
        record.state = .cleaned ∧ record.flags = 0)
    (hlimit : floor < exhausted) (hstart : start ≤ floor)
    (hindexed : start = floor ∨
      ∃ record ∈ journal, record.operation = .compactionIndex ∧ record.sequence = floor) :
    journal.foldlM compactionFloorStep start = some floor := by
  induction journal generalizing start with
  | nil =>
    rcases hindexed with rfl | ⟨record, hrecord, -⟩
    · rfl
    · simp at hrecord
  | cons first journal ih =>
    have hrest : ∀ record ∈ journal, record.operation = .compactionIndex →
        record.transactionId = 0 ∧ 0 < record.sequence ∧ record.sequence ≤ floor ∧
          record.state = .cleaned ∧ record.flags = 0 :=
      fun record hrecord => hindices record (List.mem_cons_of_mem _ hrecord)
    rw [List.foldlM_cons]
    by_cases hop : first.operation = .compactionIndex
    · obtain ⟨hid, hpos, hle, hstate, hflags⟩ := hindices first List.mem_cons_self hop
      have hstep : compactionFloorStep start first = some (max start first.sequence) := by
        unfold compactionFloorStep
        rw [if_neg (by simp [hop]), if_neg (by simp only [hid, hstate, hflags, ne_eq, not_true, false_or, or_false]; omega)]
      rw [hstep]
      refine ih (max start first.sequence) hrest (by omega) ?_
      rcases hindexed with rfl | ⟨record, hrecord, hindex, hsequence⟩
      · exact .inl (by omega)
      · rcases List.mem_cons.mp hrecord with rfl | hmem
        · exact .inl (by omega)
        · exact .inr ⟨record, hmem, hindex, hsequence⟩
    · have hstep : compactionFloorStep start first = some start := if_pos hop
      rw [hstep]
      refine ih start hrest hstart ?_
      rcases hindexed with rfl | ⟨record, hrecord, hindex, hsequence⟩
      · exact .inl rfl
      · rcases List.mem_cons.mp hrecord with rfl | hmem
        · exact absurd hindex hop
        · exact .inr ⟨record, hmem, hindex, hsequence⟩

/-- **A compacted journal passes the check unless a transaction is open in it.** -/
theorem Kept.validateWalSemantics (h : Kept codec journal log floor σ) :
    validateWalSemantics codec journal = decide (σ.flushed = []) := by
  obtain ⟨scan, hscan, hreads⟩ := h.scan
  have hpos : 0 < σ.bound := (h.path.sound LogState.sound_initial).pos
  have hactive : scan.activeTransactionId = if σ.flushed.length = 0 then 0 else σ.bound :=
    hreads.standing.active
  have hprepared : scan.preparedCounts = if σ.flushed.length = 0 then ∅ else
      AList.singleton σ.bound σ.flushed.length := hreads.standing.prepared
  have hread : journal.foldlM compactionFloorStep 0 = some floor :=
    foldlM_compactionFloor 0 h.indices h.limit (Nat.zero_le _) (h.indexed.imp Eq.symm id)
  unfold Journal.validateWalSemantics
  simp only [hread, hscan]
  by_cases hopen : σ.flushed = []
  · simp only [hopen, List.length_nil, if_true] at hactive hprepared
    simp [hactive, hprepared, hopen]
  · have hlength : σ.flushed.length ≠ 0 := fun hzero => hopen (List.length_eq_zero_iff.mp hzero)
    simp only [hlength, if_false] at hactive
    have hne : (scan.activeTransactionId == 0) = false := by
      rw [beq_eq_false_iff_ne]
      omega
    simp [hne, hopen]

/-! ## The seed loop -/

theorem TransactionManager.SeedReads.reads {scan : SeedScan} {σ₀ : LogState} (h : SeedReads scan σ₀)
    (hpath : Path codec σ₀ (plainRecords journal) σ) (hσ : σ₀.Sound) :
    SeedReads (journal.foldl (seedStep codec) scan) σ := by
  induction journal generalizing scan σ₀ with
  | nil =>
    cases hpath
    exact h
  | cons record journal ih =>
    rw [List.foldl_cons]
    by_cases hop : record.operation = .compactionIndex
    · rw [plainRecords_cons_index hop] at hpath
      exact ih (h.index hop) hpath hσ
    · rw [plainRecords_cons hop] at hpath
      cases hpath with
      | cons head tail => exact ih (h.appends head hσ) tail (head.sound hσ)

/-- **The seed loop reads a compacted journal as the whole log cut at the floor.** -/
theorem Kept.seed (h : Kept codec journal log floor σ) :
    SeedReads (journal.foldl (seedStep codec) {}) (σ.cut floor) := by
  obtain ⟨σ₀, hbelow, hbegins⟩ := h.begins
  have hσ₀ := hbelow.sound LogState.sound_initial
  have hstart : SeedReads {} (σ₀.cut floor) := by
    rw [cut_eq_blank hbelow]
    exact ⟨rfl, fun _ => rfl, rfl, rfl, rfl, rfl⟩
  refine hstart.reads ?_ hσ₀.cut
  rw [h.plain]
  exact hbegins.path.cut (fun record hrecord => (mem_recordsFrom.mp hrecord).2) h.targets

/-- The ids and sequences of a journal, as the seed loop sees them. -/
theorem Kept.mem (h : Kept codec journal log floor σ) {record : Record}
    (hrecord : record ∈ journal) :
    record.sequence < exhausted ∧ record.transactionId < exhausted ∧
      σ.Taken record.transactionId := by
  have hpos : 0 < σ.bound := (h.path.sound LogState.sound_initial).pos
  by_cases hop : record.operation = .compactionIndex
  · obtain ⟨hid, -, hle, -⟩ := h.indices record hrecord hop
    have := h.limit
    rw [hid]
    exact ⟨by omega, by decide, .inl hpos⟩
  · have hmem : record ∈ recordsFrom floor log := by
      rw [← h.plain]
      exact mem_plainRecords.mpr ⟨hrecord, hop⟩
    have hlog := (mem_recordsFrom.mp hmem).1
    obtain ⟨htaken, hid⟩ := h.path.takes Nat.one_pos record hlog
    exact ⟨(h.path.mem hlog).2.2.1, hid, htaken⟩

/-! ## The collection of accepted transactions -/

theorem foldlM_collect_plainRecords (journal : List Record) (upper lower : ℕ) (included : Bool)
    (scan : CollectScan) :
    journal.foldlM (collectStep upper lower included) scan =
      (plainRecords journal).foldlM (collectStep upper lower included) scan := by
  induction journal generalizing scan with
  | nil => rfl
  | cons record journal ih =>
    by_cases hop : record.operation = .compactionIndex
    · have hskip : collectStep upper lower included scan record = .ok scan := if_pos hop
      rw [plainRecords_cons_index hop, List.foldlM_cons, hskip]
      exact ih scan
    · rw [plainRecords_cons hop, List.foldlM_cons, List.foldlM_cons]
      cases collectStep upper lower included scan record with
      | error reason => rfl
      | ok scan' => exact ih scan'

/-- The collection passes over the marker on the floor, which lies below the
watermark it collects from. -/
theorem collectStep_onMarker {marker : Record} {committed included : Bool}
    {bound floor lower upper : ℕ} (hmarker : MarkerFor marker bound floor) (hpos : 0 < bound)
    (hfloor : 0 < floor) (hlower : floor ≤ lower)
    (hupper : included = true ∨ committed = false → floor ≤ upper)
    (hstate : marker.state = if committed then .checkpointed else .accepted)
    (hflags : marker.flags = if committed then walFlagCommitted else walFlagAccepted) :
    collectStep upper lower included {} marker = .ok
      { previousSequence := floor
        terminalTransactions := {bound} } := by
  have hsequence : ¬ (marker.sequence = 0 ∨
      marker.sequence ≤ ({} : CollectScan).previousSequence) := by
    rw [hmarker.sequence]
    change ¬ (floor = 0 ∨ floor ≤ 0)
    omega
  have hzero : ¬ bound = 0 := by omega
  have haccepted : (RecordState.checkpointed == RecordState.accepted) = false := by decide
  have hmarked : collectStep upper lower included {} marker =
      collectMarker upper lower included { previousSequence := floor } marker := by
    unfold collectStep
    rw [if_neg (by simp [hmarker.operation]), if_neg hsequence]
    simp only [hmarker.operation, reduceCtorEq, if_false, if_true, hmarker.sequence]
  rw [hmarked]
  unfold collectMarker
  cases committed with
  | false =>
    have hle : ¬ upper < floor := Nat.not_lt.mpr (hupper (.inr rfl))
    simp [hstate, hmarker.transactionId, hmarker.sequence, hzero, hle, hlower]
  | true =>
    cases included with
    | false => simp [hstate, hmarker.transactionId, hzero, haccepted]
    | true =>
      have hle : ¬ upper < floor := Nat.not_lt.mpr (hupper (.inl rfl))
      simp [hstate, hflags, hmarker.transactionId, hmarker.sequence, hzero, hle, hlower,
        haccepted]

/-- **The collection reads a compacted journal as the whole log cut at the floor**, from
the cleanup watermark on. -/
theorem Kept.collect (h : Kept codec journal log floor σ) {lower upper : ℕ} {included : Bool}
    (hlower : dropBelow floor σ.watermarks.cleanupSequence ≤ lower)
    (hupper : ∀ transaction ∈ collected (σ.cut floor) included,
      transaction.acceptedSequence ≤ upper) :
    ∃ scan, journal.foldlM (collectStep upper lower included) {} = .ok scan ∧
      CollectReads scan (σ.cut floor) lower included := by
  have hfloor : ∀ record ∈ recordsFrom floor log, floor ≤ record.sequence :=
    fun record hrecord => (mem_recordsFrom.mp hrecord).2
  have htargets := h.targets
  rw [foldlM_collect_plainRecords, h.plain]
  obtain ⟨σ₀, hbelow, hbegins⟩ := h.begins
  have hblank := cut_eq_blank hbelow
  have hσ₀ := hbelow.sound LogState.sound_initial
  generalize recordsFrom floor log = records at hfloor htargets hbegins
  cases hbegins with
  | closed empty path =>
    have hstart : CollectReads {} (σ₀.cut floor) lower included := by
      rw [hblank]
      exact ⟨Nat.zero_le _, rfl, rfl, by simp [empty], by simp⟩
    exact hstart.path (path.cut hfloor htargets) hσ₀.cut hupper
  | @onMarker marker committed records σ boundary state flags head tail cleaned =>
    have hsequence := boundary.sequence
    have hnext := head.next
    have hcleaned : floor ≤ lower := by
      rw [dropBelow_of_le cleaned] at hlower
      omega
    have hsettled : (σ₀.settle committed marker).cut floor =
        { σ₀ with history := [], watermarks := {}, highest := 0 }.settle committed marker := by
      rw [LogState.cut_settle σ₀ committed hsequence.ge, hblank]
    have htail : Path codec ((σ₀.settle committed marker).cut floor) records (σ.cut floor) :=
      tail.cut (fun record hrecord => hfloor record (List.mem_cons_of_mem _ hrecord))
        fun record hrecord => htargets record (List.mem_cons_of_mem _ hrecord)
    have hbelowUpper : included = true ∨ committed = false → floor ≤ upper := by
      intro hkind
      have hmem : (⟨committed, ⟨σ₀.bound, marker.sequence, σ₀.flushed, marker.objectId⟩⟩ :
          Boundary) ∈ ((σ₀.settle committed marker).cut floor).history := by
        rw [hsettled]
        simp [LogState.settle]
      have hle := hupper _ (mem_collected.mpr ⟨_, htail.history _ hmem, hkind, rfl⟩)
      exact hsequence.symm.le.trans hle
    have hstep := collectStep_onMarker boundary hσ₀.pos (by omega) hcleaned hbelowUpper state
      flags
    have hreads : CollectReads { previousSequence := floor, terminalTransactions := {σ₀.bound} }
        ((σ₀.settle committed marker).cut floor) lower included := by
      refine ⟨hsequence.ge, rfl, ?_, rfl, ?_⟩
      · have hnot : ¬ lower < marker.sequence := by omega
        rw [hsettled]
        cases committed <;> cases included <;> simp [collected, LogState.settle, hnot]
      · intro t ht
        rw [Finset.mem_singleton.mp ht]
        exact ⟨hσ₀.pos, Nat.lt_succ_self _⟩
    obtain ⟨scan, hfold, hend⟩ := hreads.path htail (head.sound hσ₀).cut hupper
    refine ⟨scan, ?_, hend⟩
    rw [List.foldlM_cons, hstep]
    exact hfold

/-! ## What recovery reads from a compacted journal -/

variable {m : TransactionManager}

/-- The manager after it has been seeded from a log in state `τ`; `scan` supplies the
largest id and the largest sequence in the log. -/
def TransactionManager.restored (m : TransactionManager) (τ : LogState) (scan : SeedScan) :
    TransactionManager :=
  { m with
    acceptedBoundaries := τ.boundaries.toFinset.filter fun boundary =>
      τ.watermarks.cleanupSequence < boundary
    watermarks := τ.watermarks
    lastCommittedSequence := τ.watermarks.apfsDurableSequence
    highestCheckpointedMarkerSequence := τ.highest
    recoveryStateValid := !m.journalAppendAmbiguous
    nextTransactionId := max m.nextTransactionId (scan.maxTransactionId + 1)
    nextSequence := max m.nextSequence (scan.maxSequence + 1) }

/-- **What seeding computes** from a compacted journal with no open transaction. -/
theorem Kept.seedIdsFromJournalRecords (h : Kept codec journal log floor σ)
    (hclosed : σ.flushed = []) (hidle : m.state = .idle)
    (hcontinuation : m.continuationSeed = none) :
    m.seedIdsFromJournalRecords codec journal = (!m.journalAppendAmbiguous,
      m.restored (σ.cut floor) (journal.foldl (seedStep codec) {})) := by
  have hseed := h.seed
  have hσ : (σ.cut floor).Sound := (h.path.sound LogState.sound_initial).cut
  have hvalidate : Journal.validateWalSemantics codec journal = true := by
    rw [h.validateWalSemantics, hclosed]
    rfl
  have hempty : (journal.foldl (seedStep codec) {}).transactionRequiresSpoolFlush = ∅ :=
    hseed.closed hclosed
  obtain ⟨hmaxId, hmaxSequence⟩ :
      (journal.foldl (seedStep codec) {}).maxTransactionId ≤ exhausted - 1 ∧
        (journal.foldl (seedStep codec) {}).maxSequence ≤ exhausted - 1 :=
    seed_max_le (Nat.zero_le _) (Nat.zero_le _) fun record hrecord => by
      have := h.mem hrecord
      omega
  have hpositive : 0 < exhausted := by decide
  have hid : ((journal.foldl (seedStep codec) {}).maxTransactionId == exhausted) = false := by
    rw [beq_eq_false_iff_ne]
    omega
  have hsequence : ((journal.foldl (seedStep codec) {}).maxSequence == exhausted) = false := by
    rw [beq_eq_false_iff_ne]
    omega
  have hcleanup := hσ.cleanup_le
  have hdurable := hσ.durable_le
  have hnext : ∀ current largest : ℕ,
      (if current ≤ largest then largest + 1 else current) = max current (largest + 1) := by
    intro current largest
    split <;> omega
  unfold TransactionManager.seedIdsFromJournalRecords
  simp only [hidle, hvalidate, hcontinuation, ne_eq, not_true, Bool.not_true,
    Bool.false_eq_true, or_self, if_false, Option.all_none, seedStart, hseed.watermarks,
    hseed.boundaries, hseed.valid, hseed.highest, hempty, hid, hsequence, hnext,
    Nat.not_lt.mpr hcleanup, Nat.not_lt.mpr hdurable, pruneAcceptedBoundariesThrough, restored]
  simp

/-- The last transaction that is collected is the last one above the watermark. -/
theorem getLast?_filter_of_lt {transactions : List AcceptedTransaction} {lower latest : ℕ}
    (hlower : lower < latest)
    (hlast : transactions.getLast?.map AcceptedTransaction.acceptedSequence = some latest) :
    (transactions.filter fun transaction => lower < transaction.acceptedSequence).getLast?.map
      AcceptedTransaction.acceptedSequence = some latest := by
  rcases List.eq_nil_or_concat transactions with rfl | ⟨front, last, rfl⟩
  · simp at hlast
  · have hsequence : last.acceptedSequence = latest := by simpa using hlast
    simp [hsequence, hlower]

/-- **What the collection returns** from a compacted journal. -/
theorem Kept.collectAcceptedTransactions (h : Kept codec journal log floor σ) {included : Bool}
    {lower : ℕ}
    (heq : lower = if included then m.watermarks.cleanupSequence
      else m.watermarks.apfsDurableSequence)
    (hlower : dropBelow floor σ.watermarks.cleanupSequence ≤ lower)
    (hupper : ∀ transaction ∈ collected (σ.cut floor) included,
      transaction.acceptedSequence ≤ m.watermarks.acceptedSequence)
    (hlatest : lower < m.watermarks.acceptedSequence →
      (collected (σ.cut floor) included).getLast?.map AcceptedTransaction.acceptedSequence =
        some m.watermarks.acceptedSequence) :
    m.collectAcceptedTransactions journal included =
      .ok ((collected (σ.cut floor) included).filter fun transaction =>
        lower < transaction.acceptedSequence) := by
  obtain ⟨scan, hscan, hreads⟩ := h.collect hlower hupper
  have htransactions := hreads.standing.transactions
  unfold TransactionManager.collectAcceptedTransactions
  simp only [← heq, hscan, htransactions]
  refine if_neg ?_
  rintro ⟨hwork, hmissing⟩
  apply hmissing
  -- there is work above the watermark, so the accepted watermark is what is expected
  have hexpected : lower < m.watermarks.acceptedSequence := by
    cases included with
    | true => simpa using hwork
    | false =>
      by_cases hunapplied : m.hasUnappliedAcceptedWork = true
      · simpa [hunapplied] using hwork
      · simp [hunapplied] at hwork
  have hkept := getLast?_filter_of_lt hexpected (hlatest hexpected)
  cases included with
  | true => simpa using hkept
  | false =>
    have hunapplied : m.hasUnappliedAcceptedWork = true := by
      simpa [hasUnappliedAcceptedWork, heq] using hexpected
    simpa [hunapplied] using hkept

/-- The last transaction of a history is what a collection expects to end with. -/
theorem LogState.Sound.getLast?_collected {τ : LogState} (h : τ.Sound) (included : Bool)
    (hwork : (if included then τ.watermarks.cleanupSequence
      else τ.watermarks.apfsDurableSequence) < τ.watermarks.acceptedSequence) :
    (collected τ included).getLast?.map AcceptedTransaction.acceptedSequence =
      some τ.watermarks.acceptedSequence := by
  have hlatest := h.latest
  have hsettled := h.settled
  rcases List.eq_nil_or_concat τ.history with hnil | ⟨front, last, hfront⟩
  · simp only [LogState.boundaries, hnil, List.map_nil, List.getLast?_nil,
      Option.getD_none] at hlatest
    omega
  · rw [List.concat_eq_append] at hfront
    have hsequence : last.transaction.acceptedSequence = τ.watermarks.acceptedSequence := by
      simpa [LogState.boundaries, hfront, Boundary.sequence] using hlatest
    cases included with
    | true => simp [collected, hfront, hsequence]
    | false =>
      have hdurable : τ.watermarks.apfsDurableSequence < τ.watermarks.acceptedSequence := by
        simpa using hwork
      rcases hsettled with hle | ⟨boundary, hlast, hcommitted⟩
      · omega
      · obtain rfl : last = boundary := by simpa [hfront] using hlast
        simp [collected, hfront, hcommitted, hsequence]

/-- What a manager seeded from the journal collects. -/
theorem Kept.collect_restored (h : Kept codec journal log floor σ)
    (hwatermarks : m.watermarks = (σ.cut floor).watermarks) (included : Bool) :
    m.collectAcceptedTransactions journal included =
      .ok ((collected (σ.cut floor) included).filter fun transaction =>
        (if included then (σ.cut floor).watermarks.cleanupSequence
          else (σ.cut floor).watermarks.apfsDurableSequence) < transaction.acceptedSequence) := by
  have hσ : (σ.cut floor).Sound := (h.path.sound LogState.sound_initial).cut
  refine h.collectAcceptedTransactions (by rw [hwatermarks]) ?_ ?_ ?_
  · cases included with
    | true => exact Nat.le_refl _
    | false => exact hσ.cleanup_le
  · intro transaction htransaction
    obtain ⟨boundary, hmem, -, rfl⟩ := mem_collected.mp htransaction
    rw [hwatermarks]
    exact hσ.le_accepted (LogState.mem_boundaries.mpr ⟨boundary, hmem, rfl⟩)
  · rw [hwatermarks]
    exact hσ.getLast?_collected included

/-- **Nothing above a watermark is lost by the cut**, as long as everything below the
floor is below the watermark. -/
theorem collected_cut {watermark : ℕ} (included : Bool)
    (hdropped : ∀ sequence ∈ σ.boundaries, sequence < floor → sequence ≤ watermark) :
    ((collected (σ.cut floor) included).filter fun transaction =>
        dropBelow floor watermark < transaction.acceptedSequence) =
      (collected σ included).filter fun transaction =>
        watermark < transaction.acceptedSequence := by
  have hkeep : ∀ boundary ∈ σ.history,
      ((decide (dropBelow floor watermark < boundary.transaction.acceptedSequence) &&
        ((included || !boundary.committed) && decide (floor ≤ boundary.sequence))) =
      (decide (watermark < boundary.transaction.acceptedSequence) &&
        (included || !boundary.committed))) := by
    intro boundary hboundary
    have hbelow : boundary.sequence < floor → boundary.sequence ≤ watermark :=
      hdropped _ (LogState.mem_boundaries.mpr ⟨boundary, hboundary, rfl⟩)
    change (decide (dropBelow floor watermark < boundary.sequence) && _) =
      (decide (watermark < boundary.sequence) && _)
    by_cases hfloor : boundary.sequence < floor
    · have h1 : ¬ floor ≤ boundary.sequence := by omega
      have h2 : ¬ watermark < boundary.sequence := by
        have := hbelow hfloor
        omega
      simp [h1, h2]
    · have h1 : floor ≤ boundary.sequence := by omega
      have h2 : dropBelow floor watermark < boundary.sequence ↔
          watermark < boundary.sequence := by
        unfold dropBelow
        split
        · constructor <;> intro <;> omega
        · exact Iff.rfl
      simp [h1, h2]
  unfold collected LogState.cut
  simp only [List.filter_map, List.filter_filter]
  congr 1
  exact List.filter_congr hkeep

end Readers

/-! ## Appending and compacting -/

section Change

variable {journal log : List Record} {floor : ℕ} {σ σ' : LogState} {record : Record}

theorem Begins.concat {σ₀ : LogState} {records : List Record}
    (h : Begins codec floor σ₀ records σ) (happends : Appends codec σ record σ') :
    Begins codec floor σ₀ (records ++ [record]) σ' := by
  cases h with
  | closed empty path => exact .closed empty (path.append (.single happends))
  | onMarker boundary state flags head tail cleaned =>
    exact .onMarker boundary state flags head (tail.append (.single happends))
      (cleaned.trans happends.cleanup_le)

/-- A record above the floor is appended to the journal and to the log alike. -/
theorem Kept.append (h : Kept codec journal log floor σ) (happends : Appends codec σ record σ')
    (hfloor : floor ≤ record.sequence)
    (htarget : record.operation = .durabilityWatermark → floor ≤ record.logicalOffset) :
    Kept codec (journal ++ [record]) (log ++ [record]) floor σ' := by
  have hop := happends.ne_compactionIndex
  have hfrom : recordsFrom floor (log ++ [record]) = recordsFrom floor log ++ [record] := by
    simp [recordsFrom, hfloor]
  have hbelow : recordsBelow floor (log ++ [record]) = recordsBelow floor log := by
    have hnot : ¬ record.sequence < floor := Nat.not_lt.mpr hfloor
    simp [recordsBelow, hnot]
  refine ⟨h.path.append (.single happends), ?_, ?_, ?_, h.limit, ?_, ?_, ?_⟩
  · rw [hfrom, ← h.plain]
    simp [plainRecords, hop]
  · intro other hother hindex
    rcases List.mem_append.mp hother with hmem | hmem
    · exact h.indices other hmem hindex
    · rw [List.mem_singleton.mp hmem] at hindex
      exact absurd hindex hop
  · exact h.indexed.imp id fun ⟨index, hmem, hindex⟩ =>
      ⟨index, List.mem_append_left _ hmem, hindex⟩
  · obtain ⟨σ₀, hpath, hbegins⟩ := h.begins
    rw [hfrom, hbelow]
    exact ⟨σ₀, hpath, hbegins.concat happends⟩
  · intro other hother
    rw [hfrom] at hother
    rcases List.mem_append.mp hother with hmem | hmem
    · exact h.targets other hmem
    · rw [List.mem_singleton.mp hmem]
      exact htarget
  · intro sequence hsequence hlt
    have hcleanup := happends.cleanup_le
    rcases happends.boundaries sequence hsequence with hold | rfl
    · exact (h.dropped sequence hold hlt).trans hcleanup
    · omega

theorem Kept.appendAll {records : List Record} (h : Kept codec journal log floor σ)
    (hpath : Path codec σ records σ') (hfloor : ∀ record ∈ records, floor ≤ record.sequence)
    (htargets : ∀ record ∈ records, record.operation = .durabilityWatermark →
      floor ≤ record.logicalOffset) :
    Kept codec (journal ++ records) (log ++ records) floor σ' := by
  induction hpath generalizing journal log with
  | nil => simpa using h
  | @cons σ σ₁ σ₂ first rest head tail ih =>
    have hfirst := h.append head (hfloor first List.mem_cons_self)
      (htargets first List.mem_cons_self)
    have hrest := ih hfirst
      (fun record hrecord => hfloor record (List.mem_cons_of_mem _ hrecord))
      fun record hrecord => htargets record (List.mem_cons_of_mem _ hrecord)
    simpa using hrest

theorem plainRecords_compact (journal : List Record) (volumeIdentity : String) (floor : ℕ) :
    plainRecords (journal.filter (isKept floor) ++ [compactionIndex volumeIdentity floor]) =
      recordsFrom floor (plainRecords journal) := by
  unfold plainRecords recordsFrom
  rw [List.filter_append, List.filter_filter, List.filter_filter]
  have hindex : ([compactionIndex volumeIdentity floor].filter fun record =>
      decide (record.operation ≠ .compactionIndex)) = [] := rfl
  rw [hindex, List.append_nil]
  refine List.filter_congr fun record _ => ?_
  unfold isKept
  by_cases hop : record.operation = .compactionIndex <;> simp [hop]

theorem recordsFrom_recordsFrom (floor floor' : ℕ) (log : List Record) :
    recordsFrom floor' (recordsFrom floor log) = recordsFrom (max floor floor') log := by
  unfold recordsFrom
  rw [List.filter_filter]
  refine List.filter_congr fun record _ => ?_
  rw [← Bool.decide_and]
  exact decide_eq_decide.mpr ⟨fun h => by omega, fun h => by omega⟩

/-- **A compaction keeps the journal readable** when what it newly drops has been
cleaned up, what is left begins properly, and no watermark that is left names a
boundary that is dropped. -/
theorem Kept.compact (h : Kept codec journal log floor σ) (volumeIdentity : String)
    {floor' : ℕ} (hpos : 0 < floor') (hlimit : floor' < exhausted)
    (hbegins : floor < floor' → ∃ σ₀, Path codec {} (recordsBelow floor' log) σ₀ ∧
      Begins codec floor' σ₀ (recordsFrom floor' log) σ)
    (htargets : ∀ record ∈ journal, record.operation = .durabilityWatermark →
      floor' ≤ record.sequence → floor' ≤ record.logicalOffset)
    (hdropped : floor < floor' → ∀ sequence ∈ σ.boundaries, sequence < floor' →
      sequence ≤ σ.watermarks.cleanupSequence) :
    Kept codec (journal.filter (isKept floor') ++ [compactionIndex volumeIdentity floor']) log
      (max floor floor') σ := by
  have hplain : plainRecords (journal.filter (isKept floor') ++
      [compactionIndex volumeIdentity floor']) = recordsFrom (max floor floor') log := by
    rw [plainRecords_compact, h.plain, recordsFrom_recordsFrom]
  have hindices : ∀ record ∈ journal.filter (isKept floor') ++
      [compactionIndex volumeIdentity floor'], record.operation = .compactionIndex →
      record.transactionId = 0 ∧ 0 < record.sequence ∧ record.sequence ≤ max floor floor' ∧
        record.state = .cleaned ∧ record.flags = 0 := by
    intro record hrecord hindex
    rcases List.mem_append.mp hrecord with hmem | hmem
    · obtain ⟨hid, hsequence, hle, hrest⟩ :=
        h.indices record (List.mem_filter.mp hmem).1 hindex
      exact ⟨hid, hsequence, hle.trans (Nat.le_max_left _ _), hrest⟩
    · rw [List.mem_singleton.mp hmem]
      exact ⟨rfl, hpos, Nat.le_max_right _ _, rfl, rfl⟩
  rcases Nat.lt_or_ge floor floor' with hlt | hge
  · rw [max_eq_right hlt.le] at hplain hindices ⊢
    refine ⟨h.path, hplain, hindices, .inr ⟨_, List.mem_append_right _ List.mem_cons_self, rfl,
      rfl⟩, hlimit, hbegins hlt, ?_, hdropped hlt⟩
    intro record hrecord hop
    rw [← hplain] at hrecord
    obtain ⟨hmem, hindex⟩ := mem_plainRecords.mp hrecord
    rcases List.mem_append.mp hmem with hkept | hnew
    · have hsequence : floor' ≤ record.sequence := by
        have hisKept := (List.mem_filter.mp hkept).2
        simpa [isKept, hindex] using hisKept
      exact htargets record (List.mem_filter.mp hkept).1 hop hsequence
    · rw [List.mem_singleton.mp hnew] at hindex
      exact absurd rfl hindex
  · rw [max_eq_left hge] at hplain hindices ⊢
    refine ⟨h.path, hplain, hindices, ?_, h.limit, h.begins, h.targets, h.dropped⟩
    refine h.indexed.imp id fun ⟨index, hmem, hindex, hsequence⟩ =>
      ⟨index, List.mem_append_left _ (List.mem_filter.mpr ⟨hmem, ?_⟩), hindex, hsequence⟩
    simp [isKept, hindex]

/-- A cut of a log by its sequences. -/
theorem recordsFrom_append {front back : List Record} {floor : ℕ}
    (hfront : ∀ record ∈ front, record.sequence < floor)
    (hback : ∀ record ∈ back, floor ≤ record.sequence) :
    recordsBelow floor (front ++ back) = front ∧ recordsFrom floor (front ++ back) = back := by
  unfold recordsBelow recordsFrom
  rw [List.filter_append, List.filter_append]
  constructor
  · rw [List.filter_eq_self.mpr fun record hrecord => by simpa using hfront record hrecord,
      List.filter_eq_nil_iff.mpr fun record hrecord => by simpa using hback record hrecord,
      List.append_nil]
  · rw [List.filter_eq_nil_iff.mpr fun record hrecord => by simpa using hfront record hrecord,
      List.filter_eq_self.mpr fun record hrecord => by simpa using hback record hrecord,
      List.nil_append]

/-- A floor at the first record of the open transaction, or above the log. -/
theorem Path.begins_at_open (h : Path codec {} log σ)
    (hbelow : ∀ record ∈ log, record ∉ σ.flushed → record.sequence < floor)
    (hflushed : ∀ record ∈ σ.flushed, floor ≤ record.sequence) :
    ∃ σ₀, Path codec {} (recordsBelow floor log) σ₀ ∧
      Begins codec floor σ₀ (recordsFrom floor log) σ := by
  obtain ⟨front, σ₀, hlog, hfront, hempty, -, hopen⟩ := h.open_suffix
  have hsplit : ∀ record ∈ front, record.sequence < floor := by
    intro record hrecord
    refine hbelow record (by rw [hlog]; exact List.mem_append_left _ hrecord) fun hmem => ?_
    have h1 := (hfront.mem hrecord).2.1
    have h2 := (hopen.mem hmem).1
    omega
  obtain ⟨hcutBelow, hcutFrom⟩ := recordsFrom_append hsplit hflushed
  rw [← hlog] at hcutBelow hcutFrom
  rw [hcutBelow, hcutFrom]
  exact ⟨σ₀, hfront, .closed hempty hopen⟩

/-- A floor on a boundary that has been cleaned up. -/
theorem Path.begins_at_boundary (h : Path codec {} log σ) (hmem : floor ∈ σ.boundaries)
    (hcleaned : floor ≤ σ.watermarks.cleanupSequence) :
    ∃ σ₀, Path codec {} (recordsBelow floor log) σ₀ ∧
      Begins codec floor σ₀ (recordsFrom floor log) σ := by
  obtain ⟨front, marker, rest, σ₀, committed, hlog, hfront, hmarker, hstate, hflags, head, tail⟩ :=
    h.marker_of_mem hmem (by simp [LogState.boundaries])
  have hnext := head.next
  have hsequence := hmarker.sequence
  have hsplit : ∀ record ∈ front, record.sequence < floor := by
    intro record hrecord
    have := (hfront.mem hrecord).2.1
    omega
  have hback : ∀ record ∈ marker :: rest, floor ≤ record.sequence := by
    intro record hrecord
    rcases List.mem_cons.mp hrecord with rfl | hrest
    · exact hsequence.ge
    · have := (tail.mem hrest).1
      have := head.sequence_eq
      omega
  obtain ⟨hcutBelow, hcutFrom⟩ := recordsFrom_append hsplit hback
  rw [← hlog] at hcutBelow hcutFrom
  rw [hcutBelow, hcutFrom]
  exact ⟨σ₀, hfront, .onMarker hmarker hstate hflags head tail hcleaned⟩

end Change

end Journal
end ApfsAccess
