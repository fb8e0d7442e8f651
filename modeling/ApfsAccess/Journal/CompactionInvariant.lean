import ApfsAccess.Journal.CompactionSteps

/-!
# Every admissible run is consistent

The requests that read the journal back, the two watermarks and the requests that
do not append, and from them the invariant of a whole run.

A manager that reseeds itself and a manager that is constructed anew over the same
journal end in the same place: `LiveAt.restored` says so for both, and the newest
transaction id comes from the journal (`IdsKept`) or from the manager itself.
-/

namespace ApfsAccess
namespace Journal

variable {codec : WalCodec}

/-- The last sequence of a log is that of a record in it. -/
theorem Path.last_sequence {σ : LogState} {log : List Record} (h : Path codec {} log σ) :
    σ.sequence = 0 ∨ ∃ record ∈ log, record.sequence = σ.sequence := by
  rcases List.eq_nil_or_concat log with rfl | ⟨front, last, rfl⟩
  · cases h
    exact .inl rfl
  · rw [List.concat_eq_append] at h
    obtain ⟨σ₁, -, hlast⟩ := h.concat_inv
    exact .inr ⟨last, by simp, hlast.sequence_eq.symm⟩

section Journal

open TransactionManager

variable {floor : ℕ} {σ : LogState} {journal log : List Record}

/-- The largest sequence in a journal covers the floor and the whole log. -/
theorem Kept.le_maxSequence (h : Kept codec journal log floor σ) :
    floor ≤ (journal.foldl (seedStep codec) {}).maxSequence ∧
      σ.sequence ≤ (journal.foldl (seedStep codec) {}).maxSequence := by
  have hmax := (@le_seed_max codec journal {}).2
  have hfloor : floor ≤ (journal.foldl (seedStep codec) {}).maxSequence := by
    rcases h.indexed with rfl | ⟨index, hmem, -, rfl⟩
    · exact Nat.zero_le _
    · exact (hmax index hmem).2
  refine ⟨hfloor, ?_⟩
  rcases h.path.last_sequence with hzero | ⟨last, hmem, hlast⟩
  · omega
  · by_cases hbelow : last.sequence < floor
    · omega
    · have hjournal : last ∈ plainRecords journal := by
        rw [h.plain]
        exact mem_recordsFrom.mpr ⟨hmem, Nat.le_of_not_lt hbelow⟩
      have := (hmax last (mem_plainRecords.mp hjournal).1).2
      omega

/-- No id in a journal without an open transaction reaches the bound. -/
theorem Kept.maxTransactionId_lt (h : Kept codec journal log floor σ) (hclosed : σ.flushed = []) :
    (journal.foldl (seedStep codec) {}).maxTransactionId < σ.bound := by
  have hpos : 0 < σ.bound := (h.path.sound LogState.sound_initial).pos
  have hle := (@seed_max_le codec journal {} (σ.bound - 1) (exhausted - 1) (Nat.zero_le _)
    (Nat.zero_le _) fun record hrecord => by
      obtain ⟨hsequence, -, htaken⟩ := h.mem hrecord
      rcases htaken with hlt | ⟨-, hopen⟩
      · omega
      · exact absurd hclosed hopen).1
  omega

/-- The id the next transaction takes after a reseed. -/
theorem Kept.nextTransactionId (h : Kept codec journal log floor σ) (hclosed : σ.flushed = [])
    {next : ℕ} (hpos : 0 < next) (hle : next ≤ σ.bound)
    (hids : next = σ.bound ∨ IdsKept log floor σ) :
    max next ((journal.foldl (seedStep codec) {}).maxTransactionId + 1) = σ.bound := by
  have hlt := h.maxTransactionId_lt hclosed
  rcases hids with hnext | hone | ⟨record, hmem, hfloor, hid, -⟩
  · omega
  · omega
  · have hjournal : record ∈ plainRecords journal := by
      rw [h.plain]
      exact mem_recordsFrom.mpr ⟨hmem, hfloor⟩
    have := ((@le_seed_max codec journal {}).2 record
      (mem_plainRecords.mp hjournal).1).1
    omega

/-- The id bound of a log is not past the ids there are. -/
theorem Kept.bound_le (h : Kept codec journal log floor σ) (hids : IdsKept log floor σ) :
    σ.bound ≤ exhausted := by
  rcases hids with hone | ⟨record, hmem, -, hid, -⟩
  · rw [hone]
    decide
  · have := (h.path.takes Nat.one_pos record hmem).2
    omega

end Journal

namespace TransactionManager

section Reseeding

variable {m : TransactionManager} {evidence : Evidence} {floor : ℕ} {σ : LogState}
  {journal log : List Record}

/-- An idle manager that is in step with the log. -/
theorem LiveAt.of_idle (hidle : m.state = .idle) (hbuffered : m.bufferedPreparedRecords = [])
    (hsequence : σ.sequence < m.nextSequence) (hfloor : floor ≤ m.nextSequence)
    (hlimit : m.nextSequence ≤ exhausted) (hnext : m.nextTransactionId = σ.bound)
    (htransaction : m.nextTransactionId ≤ exhausted) (hσ : σ.Sound) (hclosed : σ.flushed = [])
    (hunambiguous : m.journalAppendAmbiguous = false) (hwatermarks : WatermarksAt m σ floor)
    (staged : List Record) : LiveAt codec m σ floor staged := by
  have hrewind : m.rewind.nextSequence = m.nextSequence := by
    simp only [rewind, hbuffered]
  refine ⟨?_, ?_, ?_, hlimit, htransaction, hσ.closed hclosed, hunambiguous, hwatermarks,
    fun _ => ⟨hclosed, hbuffered, hnext⟩, fun hnotIdle => absurd hidle hnotIdle⟩
  · rw [hrewind]
    exact ⟨hsequence, hfloor⟩
  · rw [hbuffered]
    rfl
  · rw [hrewind, hbuffered]
    rfl

/-- **A manager seeded from its journal is in step with the log.** -/
theorem LiveAt.restored (h : Kept codec journal log floor σ) (hclosed : σ.flushed = [])
    (hidle : m.state = .idle) (hbuffered : m.bufferedPreparedRecords = [])
    (hunambiguous : m.journalAppendAmbiguous = false)
    (hsequence : m.nextSequence ≤ exhausted)
    (hpos : 0 < m.nextTransactionId) (hle : m.nextTransactionId ≤ σ.bound)
    (htransaction : m.nextTransactionId ≤ exhausted)
    (hids : m.nextTransactionId = σ.bound ∨ IdsKept log floor σ)
    (staged : List Record) :
    LiveAt codec (m.restored (σ.cut floor) (journal.foldl (seedStep codec) {})) σ floor staged := by
  have hσ := h.path.sound LogState.sound_initial
  have hmax := h.le_maxSequence
  have hnext := h.nextTransactionId hclosed hpos hle hids
  have hlimit : σ.bound ≤ exhausted := by
    rcases hids with heq | hkept
    · omega
    · exact h.bound_le hkept
  have hmaxLimit : (journal.foldl (seedStep codec) {}).maxSequence < exhausted := by
    have hone : 0 < exhausted := by decide
    have := (@seed_max_le codec journal {} (exhausted - 1) (exhausted - 1) (Nat.zero_le _)
      (Nat.zero_le _) fun record hrecord => by
        have := h.mem hrecord
        omega).2
    omega
  let m' := m.restored (σ.cut floor) (journal.foldl (seedStep codec) {})
  have hsequence' : m'.nextSequence =
      max m.nextSequence ((journal.foldl (seedStep codec) {}).maxSequence + 1) := rfl
  have htransaction' : m'.nextTransactionId = σ.bound := hnext
  exact LiveAt.of_idle (m := m') hidle hbuffered (by omega) (by omega) (by omega) hnext
    (by omega) hσ hclosed hunambiguous (.restored hσ m _) staged

/-- **Seeding from the journal keeps the invariant**, of a manager that is in use and
of one that has just been constructed. -/
theorem ConsistentAt.seed (hpath : m.journalPath ≠ "") (hcontinuation : m.continuationSeed = none)
    (hkept : Kept codec m.journal evidence.log floor σ) (hsettled : evidence.settled = σ.history)
    (hkeptIds : σ.flushed = [] → IdsKept evidence.log floor σ)
    (hidle : m.state = .idle) (hbuffered : m.bufferedPreparedRecords = [])
    (hsequence : m.nextSequence ≤ exhausted)
    (hpos : 0 < m.nextTransactionId) (hle : m.nextTransactionId ≤ σ.bound)
    (htransaction : m.nextTransactionId ≤ exhausted) (hclosed : σ.flushed = []) :
    ConsistentAt codec (m.seedIdsFromJournalRecords codec m.journal).2 evidence floor σ := by
  rw [hkept.seedIdsFromJournalRecords hclosed hidle hcontinuation]
  refine ⟨hpath, hcontinuation, hkept, hsettled, hkeptIds, fun hvalid => ?_⟩
  have hunambiguous : m.journalAppendAmbiguous = false := by
    simpa [TransactionManager.restored] using hvalid
  exact LiveAt.restored hkept hclosed hidle hbuffered hunambiguous hsequence hpos hle htransaction
    (.inr (hkeptIds hclosed)) _

/-- What seeding an idle manager from its own journal does to the manager. -/
theorem ConsistentAt.reseed (h : ConsistentAt codec m evidence floor σ)
    (hvalid : m.recoveryStateValid = true) (hidle : m.state = .idle) :
    ∃ m', m.seedIdsFromJournalRecords codec m.journal = (true, m') ∧
      ConsistentAt codec m' evidence floor σ ∧
      m' = m.restored (σ.cut floor) (m.journal.foldl (seedStep codec) {}) := by
  have hlive := h.live hvalid
  obtain ⟨hclosed, hbuffered, hnext⟩ := hlive.closed hidle
  have hσ := h.kept.path.sound LogState.sound_initial
  have hpos := hσ.pos
  have hseed := ConsistentAt.seed h.path h.continuation h.kept h.settled h.ids hidle hbuffered
    hlive.sequence_le (by omega) (by omega) hlive.transaction_le hclosed
  have hresult := h.kept.seedIdsFromJournalRecords hclosed hidle h.continuation
  rw [hlive.unambiguous] at hresult
  refine ⟨_, hresult, ?_, rfl⟩
  rw [hresult] at hseed
  exact hseed

/-- Seeding from the existing journal, on an idle manager that has one. -/
theorem seedIdsFromExistingJournal_of_idle (hidle : m.state = .idle) (hpath : m.journalPath ≠ "")
    (lease : Lease) : m.seedIdsFromExistingJournal codec lease =
      if !lease.readable ∨ !validateWalSemantics codec m.journal then
        (false, { m with recoveryStateValid := false })
      else m.seedIdsFromJournalRecords codec m.journal := by
  unfold seedIdsFromExistingJournal
  rw [if_neg (not_not.mpr hidle), if_neg hpath]

/-- The reseeding at the head of an operation. -/
theorem ConsistentAt.reseedUnlessHeld (h : ConsistentAt codec m evidence floor σ)
    (hvalid : m.recoveryStateValid = true) (hidle : m.state = .idle) (lease : Lease) :
    ∃ ok m', m.reseedUnlessHeld codec lease = (ok, m') ∧
      ConsistentAt codec m' evidence floor σ ∧ m'.journal = m.journal ∧
      m'.volumeIdentity = m.volumeIdentity ∧ m'.state = .idle ∧
      (ok = true → m'.recoveryStateValid = true) ∧
      (m' = m ∨ m'.highestCheckpointedMarkerSequence ≤ m'.watermarks.apfsDurableSequence ∨
        m'.recoveryStateValid = false) := by
  unfold TransactionManager.reseedUnlessHeld
  split
  · exact ⟨true, m, rfl, h, rfl, rfl, hidle, fun _ => hvalid, .inl rfl⟩
  · rw [seedIdsFromExistingJournal_of_idle hidle h.path]
    split
    · refine ⟨_, _, rfl, h.of_poisoned rfl rfl rfl rfl rfl rfl, rfl, rfl, hidle, ?_,
        .inr (.inr rfl)⟩
      simp
    · obtain ⟨m', hseed, hconsistent, hm'⟩ := h.reseed hvalid hidle
      have hcut : (σ.cut floor).Sound := (h.kept.path.sound LogState.sound_initial).cut
      rw [hseed]
      refine ⟨_, m', rfl, hconsistent, ?_, ?_, ?_, ?_, .inr (.inl ?_)⟩
      · rw [hm']
        rfl
      · rw [hm']
        rfl
      · rw [hm']
        exact hidle
      · intro hok
        simp only [Bool.true_and, Bool.and_eq_true] at hok
        exact hok.1
      · rw [hm']
        exact hcut.highest_le

end Reseeding

/-! ## The watermarks -/

section Marking

variable {m : TransactionManager} {evidence : Evidence} {floor : ℕ} {σ : LogState}

/-- The state of a watermark record. -/
def watermarkState (cleaned : Bool) : RecordState :=
  if cleaned then .cleaned else .checkpointed

/-- What a successful mark does to the manager in memory. -/
def advanceWatermark (cleaned : Bool) (target : ℕ) (m : TransactionManager) :
    TransactionManager :=
  if cleaned then
    { m with watermarks := { m.watermarks with cleanupSequence := target } }
      |>.pruneAcceptedBoundariesThrough target
  else
    { m with
      watermarks := { m.watermarks with apfsDurableSequence := target }
      lastCommittedSequence := target }

/-- The watermark that a mark moves. -/
def lowerWatermark (cleaned : Bool) (watermarks : DurabilityWatermarks) : ℕ :=
  if cleaned then watermarks.cleanupSequence else watermarks.apfsDurableSequence

/-- The watermark that a mark may not pass. -/
def upperWatermark (cleaned : Bool) (watermarks : DurabilityWatermarks) : ℕ :=
  if cleaned then watermarks.apfsDurableSequence else watermarks.acceptedSequence

/-- A mark that the manager admits is one that the log admits.  A durable mark below a
direct commit is the exception: the log is already past it. -/
theorem WatermarksAt.admits (h : WatermarksAt m σ floor) {cleaned : Bool} {target : ℕ}
    (hlower : lowerWatermark cleaned m.watermarks < target)
    (hupper : target ≤ upperWatermark cleaned m.watermarks)
    (hboundary : target ∈ m.acceptedBoundaries)
    (hhighest : cleaned = false → m.highestCheckpointedMarkerSequence ≤ target) :
    lowerWatermark cleaned σ.watermarks ≤ target ∧
      target ≤ upperWatermark cleaned σ.watermarks := by
  obtain ⟨-, -, -, hfloor⟩ := h.boundaries target hboundary
  have haccepted := h.accepted_written
  have hdurable := h.durable_written
  cases cleaned with
  | true =>
    change m.watermarks.cleanupSequence < target at hlower
    change target ≤ m.watermarks.apfsDurableSequence at hupper
    change σ.watermarks.cleanupSequence ≤ target ∧ target ≤ σ.watermarks.apfsDurableSequence
    have hknown := h.cleanup_known
    omega
  | false =>
    change m.watermarks.apfsDurableSequence < target at hlower
    change target ≤ m.watermarks.acceptedSequence at hupper
    change σ.watermarks.apfsDurableSequence ≤ target ∧ target ≤ σ.watermarks.acceptedSequence
    have hknown := h.durable_known
    have := hhighest rfl
    omega

/-- **A watermark extends the log by one record.** -/
theorem Aligned.mark (h : Aligned codec m evidence floor σ) (hidle : m.state = .idle)
    (hids : IdsKept evidence.log floor σ) {cleaned : Bool} {target : ℕ}
    (hlower : lowerWatermark cleaned m.watermarks < target)
    (hupper : target ≤ upperWatermark cleaned m.watermarks)
    (hboundary : target ∈ m.acceptedBoundaries)
    (hhighest : cleaned = false → m.highestCheckpointedMarkerSequence ≤ target)
    (hexhausted : m.nextSequence ≠ exhausted) (marks : List ℕ) :
    AppendsTo codec m evidence floor σ
      (advanceWatermark cleaned target { m with
        journal := m.journal ++ [m.watermarkRecord (watermarkState cleaned) target]
        nextSequence := m.nextSequence + 1 })
      { evidence with marks } := by
  have hlive := h.live
  obtain ⟨hclosed, hbuffered, hnext⟩ := hlive.closed hidle
  obtain ⟨hmem, -, -, hfloor⟩ := hlive.watermarks.boundaries target hboundary
  obtain ⟨hlower', hupper'⟩ := hlive.watermarks.admits hlower hupper hboundary hhighest
  have hunwritten := hlive.unwritten_le
  have hlimit : m.nextSequence < exhausted := lt_of_le_of_ne hlive.sequence_le hexhausted
  have hpositive : target ≠ 0 := (h.sound.written target hmem).1.ne'
  let record := m.watermarkRecord (watermarkState cleaned) target
  have happends : Appends codec σ record (σ.mark cleaned record) :=
    .mark cleaned hunwritten.1 hlimit hclosed rfl rfl rfl hpositive rfl hmem hlower' hupper'
  have habove : ∀ other ∈ [record], floor ≤ other.sequence ∧
      (other.operation = .durabilityWatermark → floor ≤ other.logicalOffset) := by
    intro other hother
    rw [List.mem_singleton.mp hother]
    exact ⟨hunwritten.2, fun _ => hfloor⟩
  have hkept := h.kept.append happends hunwritten.2 fun _ => hfloor
  refine ⟨[record], σ.mark cleaned record, ?_, .single happends, habove, ?_⟩
  · cases cleaned <;> rfl
  refine ⟨?_, ?_, ?_, h.settled, fun _ => ?_, fun _ => ?_⟩
  · cases cleaned <;> exact h.path
  · cases cleaned <;> exact h.continuation
  · cases cleaned <;> exact hkept
  · rcases hids with hone | ⟨newest, hnewest, hrest⟩
    · exact .inl hone
    · exact .inr ⟨newest, List.mem_append_left _ hnewest, hrest⟩
  · have hσ' := happends.sound h.sound
    have htransaction := hlive.transaction_le
    let appended : TransactionManager := { m with
      journal := m.journal ++ [record]
      nextSequence := m.nextSequence + 1 }
    let m' := advanceWatermark cleaned target appended
    have hmarks : WatermarksAt m' (σ.mark cleaned record) floor := by
      cases cleaned with
      | true => exact hlive.watermarks.clean hupper hboundary rfl rfl rfl
      | false => exact hlive.watermarks.durable hlower hupper rfl rfl rfl
    have hsame : m'.state = m.state ∧ m'.bufferedPreparedRecords = m.bufferedPreparedRecords ∧
        m'.nextSequence = m.nextSequence + 1 ∧ m'.nextTransactionId = m.nextTransactionId ∧
        m'.journalAppendAmbiguous = m.journalAppendAmbiguous := by
      cases cleaned <;> exact ⟨rfl, rfl, rfl, rfl, rfl⟩
    obtain ⟨h1, h2, h3, h4, h5⟩ := hsame
    have hsequence : (σ.mark cleaned record).sequence < m'.nextSequence := by
      change m.nextSequence < m'.nextSequence
      omega
    exact LiveAt.of_idle (h1.trans hidle) (h2.trans hbuffered) hsequence (by omega) (by omega)
      (h4.trans hnext) (by omega) hσ' hclosed (h5.trans hlive.unambiguous) hmarks _

/-- The barrier of a deferred acceptance only touches its own bookkeeping. -/
theorem ensureDeferredAcceptanceDurability_snd (target : ℕ) (flushed : Bool) :
    ∃ durable failed, (m.ensureDeferredAcceptanceDurability target flushed).2 =
      { m with
        deferredWalDurableSequence := durable
        deferredWalFlushFailed := failed } := by
  unfold ensureDeferredAcceptanceDurability
  split_ifs
  · exact ⟨_, _, rfl⟩
  · exact ⟨_, _, rfl⟩
  · exact ⟨_, _, rfl⟩
  · exact ⟨_, m.deferredWalFlushFailed, rfl⟩
  · exact ⟨m.deferredWalDurableSequence, _, rfl⟩

/-- The bookkeeping of deferred acceptances is not part of the invariant. -/
theorem ConsistentAt.deferred (h : ConsistentAt codec m evidence floor σ) (pending durable : ℕ)
    (failed : Bool) (marks : List ℕ) :
    ConsistentAt codec { m with
      deferredWalPendingSequence := pending
      deferredWalDurableSequence := durable
      deferredWalFlushFailed := failed } { evidence with marks } floor σ := by
  refine ⟨h.path, h.continuation, h.kept, h.settled, h.ids, fun hvalid => ?_⟩
  have hlive := h.live hvalid
  refine ⟨hlive.unwritten, hlive.buffered, hlive.nextSequence, hlive.sequence_le,
    hlive.transaction_le, hlive.intent, hlive.unambiguous,
    hlive.watermarks.congr rfl rfl rfl rfl rfl, hlive.closed, fun hnotIdle => ?_⟩
  have hopen := hlive.opened hnotIdle
  exact ⟨hopen.current, hopen.next, hopen.lt,
    ⟨hopen.stage.split, hopen.stage.operations, hopen.stage.prepared, hopen.stage.identified⟩,
    hopen.sequences, hopen.plain⟩

/-- The floor a watermark prefers. -/
theorem Aligned.preferred_mark (h : Aligned codec m evidence floor σ)
    (hwork : m.watermarks.cleanupSequence < m.watermarks.acceptedSequence) :
    Preferred m σ evidence.log m.firstUncleanedSequence := by
  have haccepted := h.live.watermarks.accepted_written
  have hwritten := h.sound.accepted_le
  have hunwritten := h.live.unwritten_le.1
  have hlimit := h.live.sequence_le
  have hfirst : m.firstUncleanedSequence = m.watermarks.cleanupSequence + 1 :=
    if_neg (by omega)
  rw [hfirst]
  exact ⟨Nat.succ_pos _, by omega, Nat.le_succ _, fun hclean => by omega⟩

/-- The checks before the append of a watermark do not look at the journal. -/
theorem appendWatermarkLocked_compact (lease : Lease) (state : RecordState)
    (target minimum : ℕ) :
    ((m.compactJournal minimum).appendWatermarkLocked lease state target).1 =
      (m.appendWatermarkLocked lease state target).1 := by
  unfold appendWatermarkLocked
  simp only [apply_ite Prod.fst]
  rfl

/-- The end of a mark: memory follows the record that was appended. -/
def advanceIfAppended (advance : TransactionManager → TransactionManager) :
    Bool × TransactionManager → Bool × TransactionManager
  | (false, m) => (false, m)
  | (true, m) => (true, advance m)

/-- **A watermark is served, whatever room it finds.** -/
theorem served_appendWatermarkWithin (h : ConsistentAt codec m evidence floor σ)
    (hvalid : m.recoveryStateValid = true) (hidle : m.state = .idle) {cleaned : Bool} {target : ℕ}
    (hlower : lowerWatermark cleaned m.watermarks < target)
    (hupper : target ≤ upperWatermark cleaned m.watermarks)
    (hboundary : target ∈ m.acceptedBoundaries)
    (hhighest : cleaned = false → m.highestCheckpointedMarkerSequence ≤ target)
    (room : Room) (lease : Lease)
    (hroom : RoomAdmitted m.journal room (m.safeCompactionFloor m.firstUncleanedSequence))
    (marks : List ℕ) :
    Served codec m evidence σ (advanceIfAppended (advanceWatermark cleaned target)
      (m.appendWatermarkWithin room lease (watermarkState cleaned) target)).2
      { evidence with marks } := by
  have haligned := h.aligned hvalid
  have hids := h.ids (haligned.live.closed hidle).1
  have hwork : m.watermarks.cleanupSequence < m.watermarks.acceptedSequence := by
    obtain ⟨-, hcleanup, haccepted, -⟩ := haligned.live.watermarks.boundaries target hboundary
    omega
  have hpreferred := haligned.preferred_mark hwork
  have hkeeps : m.watermarks.acceptedSequence ≤ m.watermarks.cleanupSequence →
      KeepsRecords m.journal (m.safeCompactionFloor m.firstUncleanedSequence) :=
    fun hclean => absurd hclean (Nat.not_le.mpr hwork)
  refine @withRoom_cases m room _ _ h.path
    (fun result => Served codec m evidence σ
      (advanceIfAppended (advanceWatermark cleaned target) result).2 { evidence with marks })
    ?_ ?_ ?_ ?_ ?_
  · intro m' happend
    rcases @appendWatermarkLocked_cases m lease (watermarkState cleaned) target h.path with ⟨m'', hrefused, hm''⟩ | ⟨-, happended⟩
    · obtain rfl : m'' = m' := congrArg Prod.snd (hrefused.symm.trans happend)
      rcases hm'' with rfl | rfl
      · exact (h.deferred _ _ _ marks).served rfl rfl
      · exact ConsistentAt.served (h.of_poisoned rfl rfl rfl rfl rfl rfl) rfl rfl
    · simp [happended] at happend
  · intro m' happend
    rcases @appendWatermarkLocked_cases m lease (watermarkState cleaned) target h.path with ⟨m'', hrefused, -⟩ | ⟨hexhausted, happended⟩
    · simp [hrefused] at happend
    · obtain rfl := congrArg Prod.snd (happended.symm.trans happend)
      exact (haligned.mark hidle hids hlower hupper hboundary hhighest hexhausted marks).served
        h.kept
  · rintro rfl htrue
    have hcompacted := haligned.compact hpreferred (hroom.1 rfl)
    have hids' := haligned.ids_compact hpreferred (haligned.live.closed hidle).1 hids hkeeps
    have hretry := (appendWatermarkLocked_compact lease (watermarkState cleaned) target
      (m.safeCompactionFloor m.firstUncleanedSequence)).trans htrue
    rcases @appendWatermarkLocked_cases _ lease (watermarkState cleaned) target
      hcompacted.path with ⟨m'', hrefused, -⟩ | ⟨hexhausted, happended⟩
    · rw [hrefused] at hretry
      cases hretry
    · rw [happended]
      exact (hcompacted.mark hidle hids' hlower hupper hboundary hhighest hexhausted
        marks).served_compact hcompacted.kept
  · intro ambiguous hstopped htrue
    have hcompacted := h.compact hvalid hpreferred (hroom.1 (by rw [hstopped]; rfl)) hkeeps
    exact ConsistentAt.served_compact (hcompacted.of_poisoned rfl rfl rfl rfl rfl rfl) rfl rfl
  · intro ambiguous _
    exact ConsistentAt.served (h.of_poisoned rfl rfl rfl rfl rfl rfl) rfl rfl

/-- A mark that has passed its checks: the barrier and the append. -/
theorem served_mark_of_admitted {m' : TransactionManager}
    (h : ConsistentAt codec m' evidence floor σ) (hvalid : m'.recoveryStateValid = true)
    (hidle : m'.state = .idle) {cleaned : Bool} {target : ℕ}
    (hlower : lowerWatermark cleaned m'.watermarks < target)
    (hupper : target ≤ upperWatermark cleaned m'.watermarks)
    (hboundary : target ∈ m'.acceptedBoundaries)
    (hhighest : cleaned = false → m'.highestCheckpointedMarkerSequence ≤ target)
    (room : Room) (lease : Lease) (flushed : Bool)
    (hroom : RoomAdmitted m'.journal room (m'.safeCompactionFloor m'.firstUncleanedSequence))
    (marks : List ℕ) :
    Served codec m' evidence σ
      (match m'.ensureDeferredAcceptanceDurability target flushed with
      | (false, m) => (false, m.markDeferredAcceptanceDurabilityFailure)
      | (true, m) => advanceIfAppended (advanceWatermark cleaned target)
          (m.appendWatermarkWithin room lease (watermarkState cleaned) target)).2
      { evidence with marks } := by
  obtain ⟨durable, failed, hensured⟩ :=
    @ensureDeferredAcceptanceDurability_snd m' target flushed
  have hdeferred := h.deferred m'.deferredWalPendingSequence durable failed evidence.marks
  cases hresult : m'.ensureDeferredAcceptanceDurability target flushed with
  | mk ok ensured =>
    rw [hresult] at hensured
    simp only at hensured
    subst hensured
    cases ok with
    | false => exact ConsistentAt.served (h.of_poisoned rfl rfl rfl rfl rfl rfl) rfl rfl
    | true =>
      have hserved := served_appendWatermarkWithin hdeferred hvalid hidle hlower hupper hboundary
        hhighest room lease hroom marks
      exact hserved.of_journal rfl rfl

/-- A mark through the parts it is made of. -/
theorem markWithin_eq (room : Room) (lease appendLease : Lease) (flushed : Bool)
    (recordState : RecordState) (lower upper : DurabilityWatermarks → ℕ)
    (advance : TransactionManager → TransactionManager) (target : ℕ) :
    m.markWithin codec room lease appendLease flushed recordState lower upper advance target =
      if !m.recoveryStateValid ∨ m.state ≠ .idle then
        (false, m)
      else
        match m.reseedUnlessHeld codec lease with
        | (false, m) => (false, m)
        | (true, m) =>
          if target < lower m.watermarks ∨ upper m.watermarks < target then
            (false, m)
          else if target = lower m.watermarks then
            (true, m)
          else if target ∉ m.acceptedBoundaries then
            (false, m)
          else
            match m.ensureDeferredAcceptanceDurability target flushed with
            | (false, m) => (false, m.markDeferredAcceptanceDurabilityFailure)
            | (true, m) => advanceIfAppended advance
                (m.appendWatermarkWithin room appendLease recordState target) := by
  unfold markWithin advanceIfAppended
  rfl

/-- **A mark is served**, whatever it observes of the lease and the flush and whatever
room it finds. -/
theorem served_markWithin (h : ConsistentAt codec m evidence floor σ) {cleaned : Bool}
    {target : ℕ} (room : Room) (lease appendLease : Lease) (flushed : Bool)
    (hhighest : cleaned = false → m.recoveryStateValid = true →
      m.watermarks.apfsDurableSequence < target → target ∈ m.acceptedBoundaries →
      m.highestCheckpointedMarkerSequence ≤ target)
    (hroom : RoomAdmitted m.journal room ((m.reseedUnlessHeld codec lease).2.safeCompactionFloor
      (m.reseedUnlessHeld codec lease).2.firstUncleanedSequence))
    (marks : List ℕ) :
    Served codec m evidence σ
      (m.markWithin codec room lease appendLease flushed (watermarkState cleaned)
        (lowerWatermark cleaned) (upperWatermark cleaned) (advanceWatermark cleaned target)
        target).2
      { evidence with marks } := by
  have hsame : ∀ {m' : TransactionManager}, ConsistentAt codec m' evidence floor σ →
      m'.journal = m.journal → Served codec m evidence σ m' { evidence with marks } :=
    fun h' hjournal => ConsistentAt.served (h'.deferred _ _ _ marks) hjournal rfl
  rw [markWithin_eq]
  by_cases hguard : !m.recoveryStateValid ∨ m.state ≠ .idle
  · rw [if_pos hguard]
    exact hsame h rfl
  rw [if_neg hguard]
  simp only [not_or, Bool.not_eq_true, Bool.not_eq_false', not_not] at hguard
  obtain ⟨hvalid, hidle⟩ := hguard
  obtain ⟨ok, m', hreseed, h', hjournal, hvolume, hidle', hvalid', hknown⟩ :=
    h.reseedUnlessHeld hvalid hidle lease
  rw [hreseed] at hroom ⊢
  cases ok with
  | false => exact hsame h' hjournal
  | true =>
    have hvalid' := hvalid' rfl
    dsimp only at hroom ⊢
    split
    · exact hsame h' hjournal
    · rename_i hrange
      simp only [not_or, not_lt] at hrange
      split
      · exact hsame h' hjournal
      · rename_i hmoves
        split
        · exact hsame h' hjournal
        · rename_i hboundary
          have hlower : lowerWatermark cleaned m'.watermarks < target := by omega
          have hhighest' : cleaned = false → m'.highestCheckpointedMarkerSequence ≤ target := by
            intro hdurable
            rcases hknown with rfl | hle | hpoisoned
            · subst hdurable
              exact hhighest rfl hvalid hlower (not_not.mp hboundary)
            · subst hdurable
              exact hle.trans hlower.le
            · rw [hvalid'] at hpoisoned
              cases hpoisoned
          rw [← hjournal] at hroom
          exact (served_mark_of_admitted h' hvalid' hidle' hlower hrange.2
            (not_not.mp hboundary) hhighest' room appendLease flushed hroom marks).of_journal
            hjournal hvolume

end Marking

/-! ## The requests that do not append -/

section Requests

variable {m : TransactionManager} {evidence : Evidence} {floor : ℕ} {σ : LogState}

/-- An idle manager in step with the log may open a transaction. -/
theorem ConsistentAt.opened (h : ConsistentAt codec m evidence floor σ)
    (hvalid : m.recoveryStateValid = true) (hidle : m.state = .idle)
    (hid : m.nextTransactionId ≠ exhausted) :
    ConsistentAt codec { m with
      currentTransactionId := m.nextTransactionId
      nextTransactionId := m.nextTransactionId + 1
      pendingMutations := []
      bufferedPreparedRecords := []
      state := .active } { evidence with staged := [] } floor σ := by
  have hlive := h.live hvalid
  obtain ⟨hclosed, hbuffered, hnext⟩ := hlive.closed hidle
  have htransaction := hlive.transaction_le
  refine ⟨h.path, h.continuation, h.kept, h.settled, h.ids, fun _ => ?_⟩
  refine ⟨hlive.unwritten_le, rfl, rfl, hlive.sequence_le, ?_, hlive.intent, hlive.unambiguous,
    hlive.watermarks.congr rfl rfl rfl rfl rfl, fun hactive => absurd hactive (by simp),
    fun _ => ⟨hnext, congrArg (· + 1) hnext, by omega, ⟨?_, rfl, by simp, by simp⟩, rfl, ?_⟩⟩
  · change m.nextTransactionId + 1 ≤ exhausted
    omega
  · rw [hclosed]
    rfl
  · rw [hclosed]
    simp

theorem served_begin (h : ConsistentAt codec m evidence floor σ) (lease : Lease) :
    Served codec m evidence σ (m.begin codec lease).2
      (if (m.begin codec lease).1 then { evidence with staged := [] } else evidence) := by
  unfold TransactionManager.begin
  split
  · exact h.served rfl rfl
  · rename_i hguard
    simp only [not_or, Bool.not_eq_true, Bool.not_eq_false', not_not] at hguard
    obtain ⟨hvalid, hidle, -, hid⟩ := hguard
    obtain ⟨ok, m', hreseed, h', hjournal, -, hidle', hvalid', -⟩ :=
      h.reseedUnlessHeld hvalid hidle lease
    rw [hreseed]
    cases ok with
    | false => exact h'.served hjournal rfl
    | true =>
      have hnext := ((h.live hvalid).closed hidle).2.2
      have hnext' := ((h'.live (hvalid' rfl)).closed hidle').2.2
      exact (h'.opened (hvalid' rfl) hidle' (by omega)).served hjournal rfl

/-- A mutation is buffered behind those of the open transaction. -/
theorem served_recordMutation (h : ConsistentAt codec m evidence floor σ) (lease : Lease)
    (mutation : MutationIntent) :
    Served codec m evidence σ (m.recordMutation codec lease mutation).2
      (if (m.recordMutation codec lease mutation).1 then
        { evidence with
          staged := evidence.staged ++ [m.preparedRecord (m.assignSequence mutation)] }
      else evidence) := by
  unfold TransactionManager.recordMutation
  split
  · exact h.served rfl rfl
  · rename_i hguard
    simp only [not_or, ne_eq, not_not, Bool.not_eq_true, Bool.not_eq_false'] at hguard
    obtain ⟨hvalid, hactive⟩ := hguard
    have hnotIdle : m.state ≠ .idle := by simp [hactive]
    split
    · exact ConsistentAt.served (h.of_poisoned rfl rfl rfl rfl rfl rfl) rfl rfl
    · cases happend : m.appendPreparedMutationLocked codec mutation with
      | none => exact h.served rfl rfl
      | some result =>
        obtain ⟨prepared, m'⟩ := result
        obtain ⟨-, hexhausted, hassigned, hconsistent, rfl, rfl⟩ :=
          appendPreparedMutationLocked_eq_some h.path happend
        have hlive := h.live hvalid
        have hopen := hlive.opened hnotIdle
        have hnext := hlive.nextSequence
        have hlimit := hlive.sequence_le
        have hrewind : (({ m with
            bufferedPreparedRecords :=
              m.bufferedPreparedRecords ++ [m.preparedRecord (m.assignSequence mutation)]
            nextSequence := m.nextSequence + 1
            pendingMutations := m.pendingMutations ++
              [{ m.assignSequence mutation with inlinePayload := [] }] } :
              TransactionManager).rewind).nextSequence = m.rewind.nextSequence := by
          cases hbuffered : m.bufferedPreparedRecords with
          | nil =>
            rw [hbuffered] at hnext
            simp only [List.length_nil, Nat.add_zero] at hnext
            rw [← hnext]
            simp only [rewind, List.nil_append]
            exact hassigned
          | cons first rest => simp [rewind, hbuffered]
        refine ConsistentAt.served ⟨h.path, h.continuation, h.kept, h.settled, h.ids,
          fun _ => ⟨?_, ?_, ?_, ?_, hlive.transaction_le, hlive.intent, hlive.unambiguous,
            hlive.watermarks.congr rfl rfl rfl rfl rfl, fun hidle => absurd hidle hnotIdle,
            fun _ => ⟨hopen.current, hopen.next, hopen.lt, ⟨?_, ?_, ?_, ?_⟩, ?_, hopen.plain⟩⟩⟩
          rfl rfl
        · rw [hrewind]
          exact hlive.unwritten
        · rw [hrewind]
          simp only [List.map_append, List.map_cons, List.map_nil, hlive.buffered,
            List.length_append, List.length_cons, List.length_nil, List.range'_concat]
          congr 2
          change (m.assignSequence mutation).walSequence = _
          omega
        · rw [hrewind]
          change m.nextSequence + 1 = _
          simp only [List.length_append, List.length_cons, List.length_nil]
          omega
        · change m.nextSequence + 1 ≤ exhausted
          omega
        · simp [hopen.stage.split]
        · simp [hopen.stage.operations, assignSequence, preparedRecord]
        · intro record hrecord
          rcases List.mem_append.mp hrecord with hold | hnew
          · exact hopen.stage.prepared record hold
          · rw [List.mem_singleton.mp hnew]
            exact ⟨⟨hopen.current, rfl, isMutationOperation_toWalOperation _⟩, hconsistent⟩
        · intro record hrecord
          rcases List.mem_append.mp hrecord with hold | hnew
          · exact hopen.stage.identified record hold
          · rw [List.mem_singleton.mp hnew]
            exact effectiveVolumeIdentity_ne_empty _
        · simp [hopen.sequences, assignSequence, preparedRecord]

/-- Reading the log back reseeds an idle manager and leaves an active one alone. -/
theorem served_load (h : ConsistentAt codec m evidence floor σ) (lease : Lease)
    (included : Bool) :
    Served codec m evidence σ (m.loadAcceptedTransactionsAfter codec lease included).2
      evidence := by
  have hpoisoned : Served codec m evidence σ { m with recoveryStateValid := false } evidence :=
    ConsistentAt.served (h.of_poisoned rfl rfl rfl rfl rfl rfl) rfl rfl
  unfold TransactionManager.loadAcceptedTransactionsAfter
  by_cases hinvalid : (!m.recoveryStateValid) = true
  · rw [if_pos hinvalid]
    exact h.served rfl rfl
  rw [if_neg hinvalid, if_neg h.path]
  split
  · exact h.served rfl rfl
  · split
    · exact hpoisoned
    · split
      · exact hpoisoned
      · split
        · exact hpoisoned
        · split
          · rename_i hidle
            obtain ⟨m', hseed, hconsistent, hm'⟩ := h.reseed (by simpa using hinvalid) hidle
            rw [hseed]
            refine hconsistent.served ?_ rfl
            rw [hm']
            rfl
          · split
            · exact hpoisoned
            · exact h.served rfl rfl

/-- A manager constructed over the journal of another one. -/
theorem served_restart (h : ConsistentAt codec m evidence floor σ) (lease : Lease) :
    Served codec m evidence σ (m.restart codec lease).2 evidence := by
  let constructed : TransactionManager :=
    { fresh m.safetyLevel m.journalPath m.volumeIdentity with journal := m.journal }
  have hσ := h.kept.path.sound LogState.sound_initial
  have hone : 1 ≤ exhausted := by decide
  have hidle : constructed.state = .idle := rfl
  have hpath : constructed.journalPath ≠ "" := h.path
  change Served codec m evidence σ (constructed.seedIdsFromExistingJournal codec lease).2 evidence
  rw [seedIdsFromExistingJournal_of_idle hidle hpath]
  split
  · exact ConsistentAt.served (h.of_poisoned rfl rfl h.continuation.symm rfl rfl rfl) rfl rfl
  · rename_i hread
    have hclosed : σ.flushed = [] := by
      by_contra hopen
      refine hread (.inr ?_)
      change (!validateWalSemantics codec m.journal) = true
      rw [h.kept.validateWalSemantics, decide_eq_false hopen]
      rfl
    have hseed : ConsistentAt codec (constructed.seedIdsFromJournalRecords codec m.journal).2
        evidence floor σ :=
      ConsistentAt.seed (m := constructed) h.path rfl h.kept h.settled h.ids rfl rfl hone
        Nat.one_pos hσ.pos hone hclosed
    refine ConsistentAt.served hseed ?_ rfl
    rw [h.kept.seedIdsFromJournalRecords hclosed rfl rfl]
    rfl

/-- The barrier of a deferred acceptance. -/
theorem served_ensureDeferredAcceptanceDurability (h : ConsistentAt codec m evidence floor σ)
    (target : ℕ) (flushed : Bool) :
    Served codec m evidence σ (m.ensureDeferredAcceptanceDurability target flushed).2
      evidence := by
  obtain ⟨durable, failed, hensured⟩ := @ensureDeferredAcceptanceDurability_snd m target flushed
  rw [hensured]
  exact (h.deferred _ durable failed evidence.marks).served rfl rfl

end Requests

/-! ## Whole runs -/

section Runs

variable {m : TransactionManager} {evidence : Evidence} {floor : ℕ} {σ : LogState}

/-- A deferred acceptance is an acceptance that remembers its sequence. -/
theorem acceptForDeferredCommitWithin_eq (room : Room) (lease : Lease) (preimage : ℕ) :
    ∃ pending, m.acceptForDeferredCommitWithin codec room lease preimage =
      ((m.acceptWithin codec room lease preimage).1,
        { (m.acceptWithin codec room lease preimage).2 with
          deferredWalPendingSequence := pending }) := by
  unfold acceptForDeferredCommitWithin acceptWithin
  split
  · exact ⟨_, rfl⟩
  · cases m.persistAndClose codec room lease .accepted preimage with
    | mk ok m' =>
      cases ok with
      | false => exact ⟨m'.deferredWalPendingSequence, rfl⟩
      | true => exact ⟨_, rfl⟩

theorem served_accept (h : ConsistentAt codec m evidence floor σ) (room : Room) (lease : Lease)
    (preimage : ℕ)
    (hroom : RoomAdmitted m.journal room (m.safeCompactionFloor m.firstSequenceToKeep)) :
    Served codec m evidence σ (m.acceptWithin codec room lease preimage).2
      (if (m.acceptWithin codec room lease preimage).1 then
        { evidence with
          settled := evidence.settled ++
            [⟨false, ⟨m.currentTransactionId, m.nextSequence, evidence.staged, preimage⟩⟩]
          staged := [] }
      else evidence) := by
  unfold acceptWithin
  split
  · exact h.served rfl rfl
  · rename_i hguard
    simp only [not_or, ne_eq, not_not, Bool.not_eq_true, Bool.not_eq_false'] at hguard
    obtain ⟨hvalid, hactive, hpending⟩ := hguard
    exact @served_persistAndClose codec m evidence floor σ h hvalid hactive false
      (fun _ => hpending) room lease preimage hroom

theorem served_commit (h : ConsistentAt codec m evidence floor σ) (room : Room) (lease : Lease)
    (preimage : ℕ)
    (hroom : RoomAdmitted m.journal room (m.safeCompactionFloor m.firstSequenceToKeep)) :
    Served codec m evidence σ (m.commitWithin codec room lease preimage).2
      (if (m.commitWithin codec room lease preimage).1 then
        { evidence with
          settled := evidence.settled ++
            [⟨true, ⟨m.currentTransactionId, m.nextSequence, evidence.staged, preimage⟩⟩]
          staged := [] }
      else evidence) := by
  unfold commitWithin
  split
  · exact h.served rfl rfl
  · rename_i hguard
    simp only [not_or, ne_eq, not_not, Bool.not_eq_true, Bool.not_eq_false'] at hguard
    exact @served_persistAndClose codec m evidence floor σ h hguard.1 hguard.2 true (by simp) room
      lease preimage hroom

/-- **Every admissible request is served.** -/
theorem served_serve (h : ConsistentAt codec m evidence floor σ) {request : Request}
    (hadmissible : m.Admissible codec request) :
    Served codec m evidence σ (m.serve codec request).2
      (if (m.serve codec request).1 then m.observe evidence request else evidence) := by
  cases request with
  | begin lease => exact served_begin h lease
  | recordMutation lease mutation => exact served_recordMutation h lease mutation
  | flushPreparedRecords room lease =>
    change Served codec m evidence σ _ (if _ then evidence else evidence)
    rw [ite_self]
    exact served_flushPreparedRecords h room lease hadmissible
  | commit room lease preimage => exact served_commit h room lease preimage hadmissible
  | accept room lease preimage => exact served_accept h room lease preimage hadmissible
  | acceptForDeferredCommit room lease preimage =>
    obtain ⟨base, appended, floor', σ', hgrowth, hconsistent⟩ :=
      served_accept h room lease preimage hadmissible
    obtain ⟨pending, heq⟩ := @acceptForDeferredCommitWithin_eq codec m room lease preimage
    change Served codec m evidence σ (m.acceptForDeferredCommitWithin codec room lease preimage).2
      (if (m.acceptForDeferredCommitWithin codec room lease preimage).1 then
        m.observe evidence (.acceptForDeferredCommit room lease preimage) else evidence)
    rw [heq]
    refine ⟨base, appended, floor', σ', ⟨hgrowth.journal, hgrowth.origin, hgrowth.kept,
      hgrowth.path, hgrowth.above⟩, ?_⟩
    exact hconsistent.deferred pending _ _ _
  | abort room lease => exact served_abort h room lease hadmissible
  | markApfsDurableThrough room lease appendLease flushed sequence =>
    have hserved := fun marks => @served_markWithin codec m evidence floor σ h false sequence room
      lease appendLease flushed (fun _ => hadmissible.2) hadmissible.1 marks
    dsimp only [observe]
    split
    · exact hserved _
    · exact hserved evidence.marks
  | markCleanedThrough room lease appendLease flushed sequence =>
    change Served codec m evidence σ _ (if _ then evidence else evidence)
    rw [ite_self]
    exact @served_markWithin codec m evidence floor σ h true sequence room lease appendLease
      flushed (by simp) hadmissible evidence.marks
  | ensureDeferredAcceptanceDurability sequence flushed =>
    change Served codec m evidence σ _ (if _ then evidence else evidence)
    rw [ite_self]
    exact served_ensureDeferredAcceptanceDurability h sequence flushed
  | loadAcceptedTransactionsAfter lease included =>
    change Served codec m evidence σ _ (if _ then evidence else evidence)
    rw [ite_self]
    exact served_load h lease included
  | restart lease =>
    change Served codec m evidence σ _ (if _ then evidence else evidence)
    rw [ite_self]
    exact served_restart h lease

/-- The log of the evidence is what the requests have appended. -/
theorem Served.advance {request : Request}
    (h : Served codec m evidence σ (m.serve codec request).2
      (if (m.serve codec request).1 then m.observe evidence request else evidence)) :
    ∃ base appended floor' σ', Growth codec m evidence.log σ
        (advance codec (m, evidence) request).1 base appended floor' σ' ∧
      (advance codec (m, evidence) request).2.log = evidence.log ++ appended ∧
      ConsistentAt codec (advance codec (m, evidence) request).1
        (advance codec (m, evidence) request).2 floor' σ' := by
  obtain ⟨base, appended, floor', σ', hgrowth, hconsistent⟩ := h
  have hlog : (TransactionManager.advance codec (m, evidence) request).2.log =
      evidence.log ++ appended := hgrowth.written
  refine ⟨base, appended, floor', σ', hgrowth, hlog, ?_⟩
  have heq : (TransactionManager.advance codec (m, evidence) request).2 =
      { (if (m.serve codec request).1 then m.observe evidence request else evidence) with
        log := evidence.log ++ appended } := by
    rw [← hlog]
    rfl
  rw [heq]
  exact hconsistent

/-- The condition on a run: every request is admissible in the state that serves it. -/
def AdmissibleRun (codec : WalCodec) (s : TransactionManager × Evidence) :
    List Request → Prop
  | [] => True
  | request :: requests => s.1.Admissible codec request ∧
      AdmissibleRun codec (TransactionManager.advance codec s request) requests

/-- **Every admissible run keeps the invariant.** -/
theorem consistent_run {s : TransactionManager × Evidence} {requests : List Request}
    (h : Consistent codec s.1 s.2) (hrun : AdmissibleRun codec s requests) :
    Consistent codec (advanceAll codec s requests).1 (advanceAll codec s requests).2 := by
  induction requests generalizing s with
  | nil => exact h
  | cons request requests ih =>
    obtain ⟨floor, σ, hconsistent⟩ := h
    obtain ⟨-, -, floor', σ', -, -, hnext⟩ := (served_serve hconsistent hrun.1).advance
    exact ih ⟨floor', σ', hnext⟩ hrun.2

/-- A manager that has just been constructed over an empty journal. -/
theorem consistent_fresh (safetyLevel : String) {journalPath : String} (volumeIdentity : String)
    (hpath : journalPath ≠ "") :
    Consistent codec (fresh safetyLevel journalPath volumeIdentity) {} := by
  have hone : 1 ≤ exhausted := by decide
  have hmarks : WatermarksAt (fresh safetyLevel journalPath volumeIdentity) {} 0 := by
    refine ⟨Nat.le_refl _, Nat.le_refl _, Nat.le_refl _, Nat.le_refl _, Nat.le_refl _,
      .inl (Nat.zero_le _), .inl (Nat.le_refl _), ?_, ?_, .inl rfl, .inl (Nat.le_refl _),
      Nat.le_refl _⟩
    · intro sequence hsequence
      exact absurd hsequence (Finset.notMem_empty _)
    · intro boundary hboundary
      exact absurd hboundary List.not_mem_nil
  refine ⟨0, {}, hpath, rfl, ?_, rfl, fun _ => .inl rfl, fun _ => ?_⟩
  · exact ⟨.nil _, rfl, by simp [fresh], .inl rfl, by decide, ⟨{}, .nil _, .closed rfl (.nil _)⟩,
      by simp [recordsFrom], by simp [LogState.boundaries]⟩
  · exact LiveAt.of_idle rfl rfl Nat.one_pos (Nat.zero_le _) hone rfl hone
      LogState.sound_initial rfl rfl hmarks _

end Runs

end TransactionManager
end Journal
end ApfsAccess
