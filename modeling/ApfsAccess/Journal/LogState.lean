import ApfsAccess.Journal.Restart

/-!
# What a log says

A log is read from the front, one record at a time.  `LogState` is everything a
reader can know after some prefix of it: the last sequence, the transactions that
are closed and the one that is open, the history of accepted and committed
transactions, the watermarks, and the last directly committed marker.

* `Appends` : the records that may come next, and what they add.
* `Path` : a whole log, or a stretch of one.
* `LogState.Sound` : what holds of every state that a log reaches.
* `LogState.cut` : the state seen by a reader of the part of the log from `floor`
  on; `Path.cut` says that such a reader walks the same path.
-/

namespace ApfsAccess
namespace Journal

/-- A transaction that ended in an accepted or in a committed marker. -/
structure Boundary where
  committed : Bool
  transaction : AcceptedTransaction
  deriving DecidableEq, Repr

/-- The sequence of the marker. -/
def Boundary.sequence (boundary : Boundary) : ℕ :=
  boundary.transaction.acceptedSequence

/-- What a reader knows after a prefix of the log: transactions below `bound` are
closed, and the open one, if any, has id `bound` and the records `flushed`. -/
structure LogState where
  sequence : ℕ := 0
  bound : ℕ := 1
  flushed : List Record := []
  intent : Option ℕ := none
  history : List Boundary := []
  watermarks : DurabilityWatermarks := {}
  highest : ℕ := 0

namespace LogState

/-- The state after a marker that closes the open transaction. -/
def close (σ : LogState) (sequence : ℕ) : LogState :=
  { σ with sequence, bound := σ.bound + 1, flushed := [], intent := none }

/-- The state after an accepted or a committed marker. -/
def settle (σ : LogState) (committed : Bool) (record : Record) : LogState :=
  { σ.close record.sequence with
    history := σ.history ++
      [⟨committed, ⟨σ.bound, record.sequence, σ.flushed, record.objectId⟩⟩]
    watermarks := { σ.watermarks with
      acceptedSequence := record.sequence
      apfsDurableSequence :=
        if committed then record.sequence else σ.watermarks.apfsDurableSequence }
    highest := if committed then record.sequence else σ.highest }

/-- The state after a watermark record. -/
def mark (σ : LogState) (cleaned : Bool) (record : Record) : LogState :=
  { σ with
    sequence := record.sequence
    watermarks :=
      if cleaned then { σ.watermarks with cleanupSequence := record.logicalOffset }
      else { σ.watermarks with apfsDurableSequence := record.logicalOffset } }

/-- The sequences of the boundaries. -/
def boundaries (σ : LogState) : List ℕ :=
  σ.history.map Boundary.sequence

end LogState

variable (codec : WalCodec)

/-- The records that may follow a log in state `σ`, and the state they lead to. -/
inductive Appends : LogState → Record → LogState → Prop
  | prepare {σ : LogState} {record : Record} {intent : Option ℕ}
      (next : σ.sequence < record.sequence) (limit : record.sequence < exhausted)
      (id : σ.bound < exhausted)
      (prepared : TransactionManager.PreparedFor record σ.bound)
      (step : TransactionManager.IntentStep codec record σ.intent intent) :
      Appends σ record
        { σ with sequence := record.sequence, flushed := σ.flushed ++ [record], intent }
  | settle {σ : LogState} {record : Record} (committed : Bool)
      (next : σ.sequence < record.sequence) (limit : record.sequence < exhausted)
      (id : σ.bound < exhausted)
      (marker : TransactionManager.MarkerFor record σ.bound record.sequence)
      (state : record.state = if committed then .checkpointed else .accepted)
      (flags : record.flags = if committed then walFlagCommitted else walFlagAccepted)
      (nonempty : committed = false → σ.flushed ≠ [])
      (length : record.logicalLength = σ.flushed.length)
      (admitted : ∀ checkpoint, σ.intent = some checkpoint →
        record.objectId = checkpoint ∧ σ.flushed.length = 1) :
      Appends σ record (σ.settle committed record)
  | abort {σ : LogState} {record : Record}
      (next : σ.sequence < record.sequence) (limit : record.sequence < exhausted)
      (id : σ.bound < exhausted)
      (marker : TransactionManager.MarkerFor record σ.bound record.sequence)
      (state : record.state = .cleaned) (flags : record.flags = walFlagAborted) :
      Appends σ record (σ.close record.sequence)
  | mark {σ : LogState} {record : Record} (cleaned : Bool)
      (next : σ.sequence < record.sequence) (limit : record.sequence < exhausted)
      (closed : σ.flushed = [])
      (operation : record.operation = .durabilityWatermark) (id : record.transactionId = 0)
      (flags : record.flags = 0) (positive : record.logicalOffset ≠ 0)
      (state : record.state = if cleaned then .cleaned else .checkpointed)
      (boundary : record.logicalOffset ∈ σ.boundaries)
      (lower : (if cleaned then σ.watermarks.cleanupSequence
        else σ.watermarks.apfsDurableSequence) ≤ record.logicalOffset)
      (upper : record.logicalOffset ≤ if cleaned then σ.watermarks.apfsDurableSequence
        else σ.watermarks.acceptedSequence) :
      Appends σ record (σ.mark cleaned record)

/-- A stretch of a log. -/
inductive Path : LogState → List Record → LogState → Prop
  | nil (σ : LogState) : Path σ [] σ
  | cons {σ σ₁ σ₂ : LogState} {record : Record} {records : List Record}
      (head : Appends codec σ record σ₁) (tail : Path σ₁ records σ₂) :
      Path σ (record :: records) σ₂

variable {codec}

/-! ## Paths -/

theorem Appends.next {σ σ' : LogState} {record : Record} (h : Appends codec σ record σ') :
    σ.sequence < record.sequence := by
  cases h <;> assumption

theorem Appends.limit {σ σ' : LogState} {record : Record} (h : Appends codec σ record σ') :
    record.sequence < exhausted := by
  cases h <;> assumption

theorem Appends.sequence_eq {σ σ' : LogState} {record : Record}
    (h : Appends codec σ record σ') : σ'.sequence = record.sequence := by
  cases h <;> rfl

theorem Appends.ne_compactionIndex {σ σ' : LogState} {record : Record}
    (h : Appends codec σ record σ') : record.operation ≠ .compactionIndex := by
  cases h with
  | prepare _ _ _ prepared _ => exact prepared.ne_compactionIndex
  | settle _ _ _ _ marker => simp [marker.operation]
  | abort _ _ _ marker => simp [marker.operation]
  | mark _ _ _ _ operation => simp [operation]

/-- The ids that are taken: those of closed transactions, and that of the open one. -/
def LogState.Taken (σ : LogState) (id : ℕ) : Prop :=
  id < σ.bound ∨ id = σ.bound ∧ σ.flushed ≠ []

theorem Appends.taken {σ σ' : LogState} {record : Record} (h : Appends codec σ record σ')
    {id : ℕ} (hid : σ.Taken id) : σ'.Taken id := by
  rcases hid with hlt | ⟨rfl, hopen⟩
  · cases h with
    | prepare => exact .inl hlt
    | settle => exact .inl (Nat.lt_succ_of_lt hlt)
    | abort => exact .inl (Nat.lt_succ_of_lt hlt)
    | mark => exact .inl hlt
  · cases h with
    | prepare => exact .inr ⟨rfl, by simp⟩
    | settle => exact .inl (Nat.lt_succ_self _)
    | abort => exact .inl (Nat.lt_succ_self _)
    | mark _ _ _ closed => exact absurd closed hopen

/-- A record takes the id it carries. -/
theorem Appends.takes {σ σ' : LogState} {record : Record} (h : Appends codec σ record σ')
    (hpos : 0 < σ.bound) : σ'.Taken record.transactionId ∧ record.transactionId < exhausted := by
  cases h with
  | prepare _ _ id prepared _ =>
    rw [prepared.transactionId]
    exact ⟨.inr ⟨rfl, by simp⟩, id⟩
  | settle _ _ _ id marker =>
    rw [marker.transactionId]
    exact ⟨.inl (Nat.lt_succ_self _), id⟩
  | abort _ _ id marker =>
    rw [marker.transactionId]
    exact ⟨.inl (Nat.lt_succ_self _), id⟩
  | mark _ _ _ _ _ id =>
    rw [id]
    exact ⟨.inl hpos, by decide⟩

theorem Appends.bound_le {σ σ' : LogState} {record : Record}
    (h : Appends codec σ record σ') : σ.bound ≤ σ'.bound := by
  cases h with
  | prepare => exact Nat.le_refl _
  | settle => exact Nat.le_succ _
  | abort => exact Nat.le_succ _
  | mark => exact Nat.le_refl _

theorem Path.append {σ σ₁ σ₂ : LogState} {records₁ records₂ : List Record}
    (h₁ : Path codec σ records₁ σ₁) (h₂ : Path codec σ₁ records₂ σ₂) :
    Path codec σ (records₁ ++ records₂) σ₂ := by
  induction h₁ with
  | nil => exact h₂
  | cons head _ ih => exact .cons head (ih h₂)

theorem Path.split {σ σ₂ : LogState} {records₁ records₂ : List Record}
    (h : Path codec σ (records₁ ++ records₂) σ₂) :
    ∃ σ₁, Path codec σ records₁ σ₁ ∧ Path codec σ₁ records₂ σ₂ := by
  induction records₁ generalizing σ with
  | nil => exact ⟨σ, .nil σ, h⟩
  | cons record records ih =>
    cases h with
    | cons head tail =>
      obtain ⟨σ₁, hfirst, hsecond⟩ := ih tail
      exact ⟨σ₁, .cons head hfirst, hsecond⟩

theorem Path.single {σ σ' : LogState} {record : Record} (h : Appends codec σ record σ') :
    Path codec σ [record] σ' :=
  .cons h (.nil σ')

/-- A path is a prefix of it and one last record. -/
theorem Path.concat_inv {σ σ₂ : LogState} {records : List Record} {record : Record}
    (h : Path codec σ (records ++ [record]) σ₂) :
    ∃ σ₁, Path codec σ records σ₁ ∧ Appends codec σ₁ record σ₂ := by
  obtain ⟨σ₁, hfirst, hlast⟩ := h.split
  cases hlast with
  | cons head tail =>
    cases tail
    exact ⟨σ₁, hfirst, head⟩

theorem Path.sequence_le {σ σ' : LogState} {records : List Record}
    (h : Path codec σ records σ') : σ.sequence ≤ σ'.sequence := by
  induction h with
  | nil => exact Nat.le_refl _
  | cons head _ ih =>
    have := head.next
    have := head.sequence_eq
    omega

theorem Path.taken {σ σ' : LogState} {records : List Record}
    (h : Path codec σ records σ') {id : ℕ} (hid : σ.Taken id) : σ'.Taken id := by
  induction h with
  | nil => exact hid
  | cons head _ ih => exact ih (head.taken hid)

/-- Every id along a path is taken at its end. -/
theorem Path.takes {σ σ' : LogState} {records : List Record} (h : Path codec σ records σ')
    (hpos : 0 < σ.bound) : ∀ record ∈ records,
      σ'.Taken record.transactionId ∧ record.transactionId < exhausted := by
  induction h with
  | nil => simp
  | cons head tail ih =>
    intro record hrecord
    rcases List.mem_cons.mp hrecord with rfl | hrest
    · exact ⟨tail.taken (head.takes hpos).1, (head.takes hpos).2⟩
    · exact ih (hpos.trans_le head.bound_le) record hrest

/-- What every record of a stretch satisfies. -/
theorem Path.mem {σ σ' : LogState} {records : List Record} (h : Path codec σ records σ')
    {record : Record} (hrecord : record ∈ records) :
    σ.sequence < record.sequence ∧ record.sequence ≤ σ'.sequence ∧
      record.sequence < exhausted ∧ record.operation ≠ .compactionIndex := by
  induction h with
  | nil => simp at hrecord
  | @cons σ σ₁ σ₂ first rest head tail ih =>
    have hnext := head.next
    have hsequence := head.sequence_eq
    have hle := tail.sequence_le
    rcases List.mem_cons.mp hrecord with rfl | hrest
    · exact ⟨hnext, by omega, head.limit, head.ne_compactionIndex⟩
    · obtain ⟨hlt, hmem⟩ := ih hrest
      exact ⟨by omega, hmem⟩

/-- The history only grows. -/
theorem Appends.history {σ σ' : LogState} {record : Record} (h : Appends codec σ record σ') :
    ∀ boundary ∈ σ.history, boundary ∈ σ'.history := by
  intro boundary hboundary
  cases h with
  | settle => exact List.mem_append_left _ hboundary
  | _ => exact hboundary

theorem Path.history {σ σ' : LogState} {records : List Record} (h : Path codec σ records σ') :
    ∀ boundary ∈ σ.history, boundary ∈ σ'.history := by
  induction h with
  | nil => exact fun _ hboundary => hboundary
  | cons head _ ih => exact fun boundary hboundary => ih boundary (head.history boundary hboundary)

/-- The sequences along a path increase. -/
theorem Path.increasing {σ σ' : LogState} {records : List Record}
    (h : Path codec σ records σ') : (records.map Record.sequence).Pairwise (· < ·) := by
  induction h with
  | nil => exact List.Pairwise.nil
  | @cons σ σ₁ σ₂ first rest head tail ih =>
    refine List.pairwise_cons.mpr ⟨fun sequence hsequence => ?_, ih⟩
    obtain ⟨record, hrecord, rfl⟩ := List.mem_map.mp hsequence
    have := (tail.mem hrecord).1
    have := head.sequence_eq
    omega

/-- The cleanup watermark only rises. -/
theorem Appends.cleanup_le {σ σ' : LogState} {record : Record}
    (h : Appends codec σ record σ') :
    σ.watermarks.cleanupSequence ≤ σ'.watermarks.cleanupSequence := by
  cases h with
  | mark cleaned _ _ _ _ _ _ _ _ _ lower =>
    cases cleaned with
    | true => exact lower
    | false => exact Nat.le_refl _
  | _ => exact Nat.le_refl _

/-- A record adds its own sequence to the boundaries, or nothing. -/
theorem Appends.boundaries {σ σ' : LogState} {record : Record} (h : Appends codec σ record σ') :
    ∀ sequence ∈ σ'.boundaries, sequence ∈ σ.boundaries ∨ sequence = record.sequence := by
  intro sequence hsequence
  cases h with
  | settle =>
    have hmem : sequence ∈ σ.boundaries ++ [record.sequence] := by
      simpa [LogState.boundaries, LogState.settle, Boundary.sequence] using hsequence
    rcases List.mem_append.mp hmem with hold | hnew
    · exact .inl hold
    · exact .inr (List.mem_singleton.mp hnew)
  | _ => exact .inl hsequence

/-- The records of the open transaction are the end of the log. -/
theorem Path.open_suffix {σ : LogState} {log : List Record} (h : Path codec {} log σ) :
    ∃ front σ₀, log = front ++ σ.flushed ∧ Path codec {} front σ₀ ∧ σ₀.flushed = [] ∧
      σ₀.watermarks = σ.watermarks ∧ Path codec σ₀ σ.flushed σ := by
  induction log using List.reverseRecOn generalizing σ with
  | nil =>
    cases h
    exact ⟨[], {}, rfl, .nil _, rfl, rfl, .nil _⟩
  | append_singleton log record ih =>
    obtain ⟨σ₁, hlog, happends⟩ := h.concat_inv
    -- a record that leaves no transaction open is the end of the front
    have hfront : σ.flushed = [] → ∃ front σ₀, log ++ [record] = front ++ σ.flushed ∧
        Path codec {} front σ₀ ∧ σ₀.flushed = [] ∧ σ₀.watermarks = σ.watermarks ∧
        Path codec σ₀ σ.flushed σ := by
      intro hempty
      refine ⟨log ++ [record], σ, by rw [hempty, List.append_nil], h, hempty, rfl, ?_⟩
      rw [hempty]
      exact .nil σ
    have happends' := happends
    cases happends' with
    | prepare =>
      obtain ⟨front, σ₀, rfl, hpath, hempty, hmarks, hopen⟩ := ih hlog
      exact ⟨front, σ₀, by simp, hpath, hempty, hmarks, hopen.append (.single happends)⟩
    | settle => exact hfront rfl
    | abort => exact hfront rfl
    | mark _ _ _ closed => exact hfront closed

/-- Every boundary of a log is the sequence of one of its markers. -/
theorem Path.marker_of_mem {σ σ' : LogState} {log : List Record} (h : Path codec σ log σ')
    {sequence : ℕ} (hmem : sequence ∈ σ'.boundaries) (hnew : sequence ∉ σ.boundaries) :
    ∃ front marker rest σ₀ committed, log = front ++ marker :: rest ∧
      Path codec σ front σ₀ ∧ TransactionManager.MarkerFor marker σ₀.bound sequence ∧
      marker.state = (if committed then .checkpointed else .accepted) ∧
      marker.flags = (if committed then walFlagCommitted else walFlagAccepted) ∧
      Appends codec σ₀ marker (σ₀.settle committed marker) ∧
      Path codec (σ₀.settle committed marker) rest σ' := by
  induction h with
  | nil => exact absurd hmem hnew
  | @cons σ σ₁ σ₂ record records head tail ih =>
    by_cases hadded : sequence ∈ σ₁.boundaries
    · have hsequence := (head.boundaries sequence hadded).resolve_left hnew
      have head' := head
      cases head' with
      | settle committed next limit id marker state flags =>
        rw [← hsequence] at marker
        exact ⟨[], record, records, σ, committed, rfl, .nil σ, marker, state, flags, head, tail⟩
      | _ => exact absurd hadded hnew
    · obtain ⟨front, marker, rest, σ₀, committed, rfl, hpath, hrest⟩ := ih hmem hadded
      exact ⟨record :: front, marker, rest, σ₀, committed, rfl, .cons head hpath, hrest⟩

/-! ## What holds of every state -/

/-- The facts about a state that do not depend on the records behind it. -/
structure LogState.Sound (σ : LogState) : Prop where
  pos : 0 < σ.bound
  closed : σ.flushed = [] → σ.intent = none
  increasing : σ.boundaries.Pairwise (· < ·)
  written : ∀ sequence ∈ σ.boundaries, 0 < sequence ∧ sequence ≤ σ.sequence
  latest : σ.boundaries.getLast?.getD 0 = σ.watermarks.acceptedSequence
  cleanup_le : σ.watermarks.cleanupSequence ≤ σ.watermarks.apfsDurableSequence
  durable_le : σ.watermarks.apfsDurableSequence ≤ σ.watermarks.acceptedSequence
  settled : σ.watermarks.acceptedSequence ≤ σ.watermarks.apfsDurableSequence ∨
    ∃ boundary, σ.history.getLast? = some boundary ∧ boundary.committed = false
  highest_le : σ.highest ≤ σ.watermarks.apfsDurableSequence
  committed : ∀ boundary ∈ σ.history, boundary.committed = true →
    boundary.sequence ≤ σ.highest
  cleaned : σ.watermarks.cleanupSequence = 0 ∨ σ.watermarks.cleanupSequence ∈ σ.boundaries

namespace LogState

theorem mem_boundaries {σ : LogState} {sequence : ℕ} :
    sequence ∈ σ.boundaries ↔ ∃ boundary ∈ σ.history, boundary.sequence = sequence :=
  List.mem_map

theorem Sound.accepted_le {σ : LogState} (h : σ.Sound) :
    σ.watermarks.acceptedSequence ≤ σ.sequence := by
  rw [← h.latest]
  cases hlast : σ.boundaries.getLast? with
  | none => exact Nat.zero_le _
  | some last => exact (h.written last (List.mem_of_getLast? hlast)).2

/-- The accepted watermark is above every boundary. -/
theorem Sound.le_accepted {σ : LogState} (h : σ.Sound) {sequence : ℕ}
    (hsequence : sequence ∈ σ.boundaries) : sequence ≤ σ.watermarks.acceptedSequence := by
  have hlatest := h.latest
  have hincreasing := h.increasing
  rcases List.eq_nil_or_concat σ.boundaries with hnil | ⟨front, last, hfront⟩
  · rw [hnil] at hsequence
    simp at hsequence
  · rw [hfront] at hlatest hincreasing hsequence
    have hlast : last = σ.watermarks.acceptedSequence := by simpa using hlatest
    rw [List.concat_eq_append, List.pairwise_append] at hincreasing
    rw [List.concat_eq_append] at hsequence
    rcases List.mem_append.mp hsequence with hmem | hmem
    · have := hincreasing.2.2 sequence hmem last List.mem_cons_self
      omega
    · rw [List.mem_singleton.mp hmem]
      exact hlast.le

theorem sound_initial : ({} : LogState).Sound where
  pos := Nat.one_pos
  closed := fun _ => rfl
  increasing := List.Pairwise.nil
  written := by simp [boundaries]
  latest := rfl
  cleanup_le := Nat.le_refl _
  durable_le := Nat.le_refl _
  settled := .inl (Nat.le_refl _)
  highest_le := Nat.le_refl _
  committed := by simp
  cleaned := .inl rfl

theorem Sound.settle {σ : LogState} (h : σ.Sound) (committed : Bool) {record : Record}
    (hnext : σ.sequence < record.sequence) : (σ.settle committed record).Sound := by
  have haccepted := h.accepted_le
  have hdurable := h.durable_le
  have hcleanup := h.cleanup_le
  have hhighest := h.highest_le
  have hboundaries : (σ.settle committed record).boundaries =
      σ.boundaries ++ [record.sequence] := by
    simp [boundaries, LogState.settle, Boundary.sequence]
  refine ⟨Nat.succ_pos _, fun _ => rfl, ?_, ?_, ?_, ?_, ?_, ?_, ?_, ?_, ?_⟩
  · rw [hboundaries, List.pairwise_append]
    refine ⟨h.increasing, List.pairwise_singleton _ _, fun sequence hsequence other hother => ?_⟩
    rw [List.mem_singleton.mp hother]
    have := (h.written sequence hsequence).2
    omega
  · intro sequence hsequence
    change 0 < sequence ∧ sequence ≤ record.sequence
    rw [hboundaries] at hsequence
    rcases List.mem_append.mp hsequence with hmem | hmem
    · have := h.written sequence hmem
      omega
    · rw [List.mem_singleton.mp hmem]
      omega
  · rw [hboundaries]
    simp [LogState.settle]
  · change σ.watermarks.cleanupSequence ≤
      if committed then record.sequence else σ.watermarks.apfsDurableSequence
    split <;> omega
  · change (if committed then record.sequence else σ.watermarks.apfsDurableSequence) ≤
      record.sequence
    split <;> omega
  · cases committed with
    | true => exact .inl (Nat.le_refl _)
    | false => exact .inr ⟨_, List.getLast?_concat, rfl⟩
  · change (if committed then record.sequence else σ.highest) ≤
      if committed then record.sequence else σ.watermarks.apfsDurableSequence
    split <;> omega
  · intro boundary hboundary hcommitted
    change boundary.sequence ≤ if committed then record.sequence else σ.highest
    rcases List.mem_append.mp hboundary with hmem | hmem
    · have := h.committed boundary hmem hcommitted
      split <;> omega
    · rw [List.mem_singleton.mp hmem] at hcommitted ⊢
      have hcommitted : committed = true := hcommitted
      rw [if_pos hcommitted]
      exact Nat.le_refl _
  · rw [hboundaries]
    exact h.cleaned.imp id fun hmem => List.mem_append_left _ hmem

theorem Sound.close {σ : LogState} (h : σ.Sound) {sequence : ℕ}
    (hnext : σ.sequence < sequence) : (σ.close sequence).Sound :=
  ⟨Nat.succ_pos _, fun _ => rfl, h.increasing,
    fun boundary hboundary =>
      ⟨(h.written boundary hboundary).1, (h.written boundary hboundary).2.trans hnext.le⟩,
    h.latest, h.cleanup_le, h.durable_le, h.settled, h.highest_le, h.committed, h.cleaned⟩

theorem Sound.mark {σ : LogState} (h : σ.Sound) (cleaned : Bool) {record : Record}
    (hnext : σ.sequence < record.sequence) (hboundary : record.logicalOffset ∈ σ.boundaries)
    (hlower : (if cleaned then σ.watermarks.cleanupSequence
      else σ.watermarks.apfsDurableSequence) ≤ record.logicalOffset)
    (hupper : record.logicalOffset ≤ if cleaned then σ.watermarks.apfsDurableSequence
      else σ.watermarks.acceptedSequence) : (σ.mark cleaned record).Sound := by
  have hcleanup := h.cleanup_le
  have hdurable := h.durable_le
  have hhighest := h.highest_le
  have hwritten : ∀ sequence ∈ σ.boundaries, 0 < sequence ∧ sequence ≤ record.sequence :=
    fun sequence hsequence =>
      ⟨(h.written sequence hsequence).1, (h.written sequence hsequence).2.trans hnext.le⟩
  cases cleaned with
  | true =>
    exact ⟨h.pos, h.closed, h.increasing, hwritten, h.latest, hupper, h.durable_le, h.settled,
      h.highest_le, h.committed, .inr hboundary⟩
  | false =>
    have hlower : σ.watermarks.apfsDurableSequence ≤ record.logicalOffset := hlower
    refine ⟨h.pos, h.closed, h.increasing, hwritten, h.latest, ?_, hupper, ?_, ?_, h.committed,
      h.cleaned⟩
    · exact hcleanup.trans hlower
    · exact h.settled.imp (fun hle => hle.trans hlower) id
    · exact hhighest.trans hlower

end LogState

theorem Appends.sound {σ σ' : LogState} {record : Record} (h : Appends codec σ record σ')
    (hσ : σ.Sound) : σ'.Sound := by
  cases h with
  | prepare next =>
    exact ⟨hσ.pos, by simp, hσ.increasing,
      fun sequence hsequence =>
        ⟨(hσ.written sequence hsequence).1, (hσ.written sequence hsequence).2.trans next.le⟩,
      hσ.latest, hσ.cleanup_le, hσ.durable_le, hσ.settled, hσ.highest_le, hσ.committed,
      hσ.cleaned⟩
  | settle committed next => exact hσ.settle committed next
  | abort next => exact hσ.close next
  | mark cleaned next _ _ _ _ _ _ _ boundary lower upper =>
    exact hσ.mark cleaned next boundary lower upper

theorem Path.sound {σ σ' : LogState} {records : List Record} (h : Path codec σ records σ')
    (hσ : σ.Sound) : σ'.Sound := by
  induction h with
  | nil => exact hσ
  | cons head _ ih => exact ih (head.sound hσ)

/-! ## Reading from the middle of a log -/

/-- A watermark as it is known to a reader of the log from `floor` on. -/
def dropBelow (floor value : ℕ) : ℕ :=
  if value < floor then 0 else value

theorem dropBelow_of_le {floor value : ℕ} (h : floor ≤ value) : dropBelow floor value = value :=
  if_neg (Nat.not_lt.mpr h)

theorem dropBelow_of_lt {floor value : ℕ} (h : value < floor) : dropBelow floor value = 0 :=
  if_pos h

theorem dropBelow_le (floor value : ℕ) : dropBelow floor value ≤ value := by
  unfold dropBelow
  split <;> omega

theorem dropBelow_mono (floor : ℕ) {value value' : ℕ} (h : value ≤ value') :
    dropBelow floor value ≤ dropBelow floor value' := by
  unfold dropBelow
  split <;> split <;> omega

/-- A reader of the log from `floor` on knows the boundaries from `floor` on, and the
watermarks that name one of them. -/
def LogState.cut (floor : ℕ) (σ : LogState) : LogState :=
  { σ with
    history := σ.history.filter fun boundary => floor ≤ boundary.sequence
    watermarks :=
      { acceptedSequence := dropBelow floor σ.watermarks.acceptedSequence
        apfsDurableSequence := dropBelow floor σ.watermarks.apfsDurableSequence
        cleanupSequence := dropBelow floor σ.watermarks.cleanupSequence }
    highest := dropBelow floor σ.highest }

namespace LogState

variable {floor : ℕ}

theorem cut_boundaries (σ : LogState) :
    (σ.cut floor).boundaries = σ.boundaries.filter fun sequence => floor ≤ sequence := by
  unfold boundaries cut
  rw [List.filter_map]
  rfl

theorem mem_cut_boundaries {σ : LogState} {sequence : ℕ} :
    sequence ∈ (σ.cut floor).boundaries ↔ sequence ∈ σ.boundaries ∧ floor ≤ sequence := by
  rw [cut_boundaries]
  simp

theorem cut_settle (σ : LogState) (committed : Bool) {record : Record}
    (hfloor : floor ≤ record.sequence) :
    (σ.settle committed record).cut floor = (σ.cut floor).settle committed record := by
  have hkept : floor ≤ (⟨committed, ⟨σ.bound, record.sequence, σ.flushed, record.objectId⟩⟩ :
      Boundary).sequence := hfloor
  unfold settle cut close
  cases committed <;> simp [dropBelow_of_le hfloor, hkept]

theorem cut_mark (σ : LogState) (cleaned : Bool) {record : Record}
    (hfloor : floor ≤ record.logicalOffset) :
    (σ.mark cleaned record).cut floor = (σ.cut floor).mark cleaned record := by
  unfold mark cut
  cases cleaned <;> simp [dropBelow_of_le hfloor]

/-- A state that lies below the floor as a whole is forgotten. -/
theorem Sound.cut_eq {σ : LogState} (h : σ.Sound) (hfloor : σ.sequence < floor) :
    σ.cut floor = { σ with history := [], watermarks := {}, highest := 0 } := by
  have haccepted := h.accepted_le
  have hdurable := h.durable_le
  have hcleanup := h.cleanup_le
  have hhighest := h.highest_le
  have hhistory : (σ.history.filter fun boundary => floor ≤ boundary.sequence) = [] := by
    refine List.filter_eq_nil_iff.mpr fun boundary hboundary => ?_
    have := (h.written boundary.sequence (mem_boundaries.mpr ⟨boundary, hboundary, rfl⟩)).2
    simp only [decide_eq_true_eq]
    omega
  unfold cut
  rw [hhistory, dropBelow_of_lt (show σ.watermarks.acceptedSequence < floor by omega),
    dropBelow_of_lt (show σ.watermarks.apfsDurableSequence < floor by omega),
    dropBelow_of_lt (show σ.watermarks.cleanupSequence < floor by omega),
    dropBelow_of_lt (show σ.highest < floor by omega)]

/-- The last of the boundaries that are kept. -/
theorem Sound.getLast?_cut {σ : LogState} (h : σ.Sound)
    (hfloor : floor ≤ σ.watermarks.acceptedSequence) {boundary : Boundary}
    (hlast : σ.history.getLast? = some boundary) :
    (σ.cut floor).history.getLast? = some boundary := by
  have hlatest := h.latest
  rcases List.eq_nil_or_concat σ.history with hnil | ⟨front, last, hfront⟩
  · rw [hnil] at hlast
    cases hlast
  · rw [List.concat_eq_append] at hfront
    rw [hfront, List.getLast?_concat] at hlast
    obtain rfl : last = boundary := by simpa using hlast
    have hsequence : last.sequence = σ.watermarks.acceptedSequence := by
      simpa [boundaries, hfront] using hlatest
    have hkept : floor ≤ last.sequence := by omega
    simp [cut, hfront, hkept]

theorem Sound.cut {σ : LogState} (h : σ.Sound) : (σ.cut floor).Sound := by
  have hcleanup := dropBelow_mono floor h.cleanup_le
  have hdurable := dropBelow_mono floor h.durable_le
  have hhighest := dropBelow_mono floor h.highest_le
  refine ⟨h.pos, h.closed, ?_, ?_, ?_, hcleanup, hdurable, ?_, hhighest, ?_, ?_⟩
  · rw [cut_boundaries]
    exact h.increasing.filter _
  · intro sequence hsequence
    exact h.written sequence (mem_cut_boundaries.mp hsequence).1
  · change _ = dropBelow floor σ.watermarks.acceptedSequence
    by_cases hfloor : floor ≤ σ.watermarks.acceptedSequence
    · rw [dropBelow_of_le hfloor]
      cases hlast : σ.history.getLast? with
      | none =>
        have hlatest := h.latest
        simp only [boundaries, List.getLast?_map, hlast, Option.map_none,
          Option.getD_none] at hlatest
        have hnil := List.getLast?_eq_none_iff.mp hlast
        simp only [boundaries, LogState.cut, hnil, List.filter_nil, List.map_nil,
          List.getLast?_nil, Option.getD_none]
        exact hlatest
      | some boundary =>
        have hlatest := h.latest
        simp only [boundaries, List.getLast?_map, hlast] at hlatest
        simp only [boundaries, List.getLast?_map, h.getLast?_cut hfloor hlast]
        exact hlatest
    · rw [dropBelow_of_lt (Nat.lt_of_not_le hfloor)]
      have hnil : (σ.cut floor).boundaries = [] := by
        refine List.eq_nil_iff_forall_not_mem.mpr fun sequence hsequence => ?_
        obtain ⟨hmem, hkept⟩ := mem_cut_boundaries.mp hsequence
        exact hfloor (hkept.trans (h.le_accepted hmem))
      rw [hnil]
      rfl
  · by_cases hfloor : floor ≤ σ.watermarks.acceptedSequence
    · rcases h.settled with hle | ⟨boundary, hlast, hcommitted⟩
      · exact .inl (dropBelow_mono floor hle)
      · exact .inr ⟨boundary, h.getLast?_cut hfloor hlast, hcommitted⟩
    · refine .inl ?_
      change dropBelow floor σ.watermarks.acceptedSequence ≤ _
      rw [dropBelow_of_lt (Nat.lt_of_not_le hfloor)]
      exact Nat.zero_le _
  · intro boundary hboundary hcommitted
    obtain ⟨hmem, hkept⟩ := List.mem_filter.mp hboundary
    have hkept : floor ≤ boundary.sequence := by simpa using hkept
    have hle := h.committed boundary hmem hcommitted
    change _ ≤ dropBelow floor σ.highest
    rw [dropBelow_of_le (hkept.trans hle)]
    exact hle
  · change dropBelow floor σ.watermarks.cleanupSequence = 0 ∨
      dropBelow floor σ.watermarks.cleanupSequence ∈ _
    by_cases hfloor : floor ≤ σ.watermarks.cleanupSequence
    · rw [dropBelow_of_le hfloor]
      exact h.cleaned.imp id fun hmem => mem_cut_boundaries.mpr ⟨hmem, hfloor⟩
    · exact .inl (dropBelow_of_lt (Nat.lt_of_not_le hfloor))

end LogState

/-- **A record above the floor means the same to a reader that starts there**, unless
it is a watermark that names a boundary below the floor. -/
theorem Appends.cut {σ σ' : LogState} {record : Record} {floor : ℕ}
    (h : Appends codec σ record σ') (hfloor : floor ≤ record.sequence)
    (htarget : record.operation = .durabilityWatermark → floor ≤ record.logicalOffset) :
    Appends codec (σ.cut floor) record (σ'.cut floor) := by
  cases h with
  | prepare next limit id prepared step =>
    exact .prepare (σ := σ.cut floor) next limit id prepared step
  | settle committed next limit id marker state flags nonempty length admitted =>
    rw [LogState.cut_settle σ committed hfloor]
    exact .settle (σ := σ.cut floor) committed next limit id marker state flags nonempty length
      admitted
  | abort next limit id marker state flags =>
    exact .abort (σ := σ.cut floor) next limit id marker state flags
  | mark cleaned next limit closed operation id flags positive state boundary lower upper =>
    have htarget := htarget operation
    rw [LogState.cut_mark σ cleaned htarget]
    refine .mark (σ := σ.cut floor) cleaned next limit closed operation id flags positive state
      (LogState.mem_cut_boundaries.mpr ⟨boundary, htarget⟩) ?_ ?_
    · cases cleaned <;> exact (dropBelow_le _ _).trans lower
    · cases cleaned with
      | true =>
        have hupper : record.logicalOffset ≤ σ.watermarks.apfsDurableSequence := upper
        exact (dropBelow_of_le (htarget.trans hupper)).ge.trans' hupper
      | false =>
        have hupper : record.logicalOffset ≤ σ.watermarks.acceptedSequence := upper
        exact (dropBelow_of_le (htarget.trans hupper)).ge.trans' hupper

theorem Path.cut {σ σ' : LogState} {records : List Record} {floor : ℕ}
    (h : Path codec σ records σ') (hfloor : ∀ record ∈ records, floor ≤ record.sequence)
    (htarget : ∀ record ∈ records, record.operation = .durabilityWatermark →
      floor ≤ record.logicalOffset) :
    Path codec (σ.cut floor) records (σ'.cut floor) := by
  induction h with
  | nil σ => exact .nil _
  | cons head _ ih =>
    exact .cons (head.cut (hfloor _ List.mem_cons_self) (htarget _ List.mem_cons_self))
      (ih (fun record hrecord => hfloor record (List.mem_cons_of_mem _ hrecord))
        fun record hrecord => htarget record (List.mem_cons_of_mem _ hrecord))

end Journal
end ApfsAccess
